import Brewery.Proofs.Coffee.BlockString
import Brewery.Proofs.Script.Context
import Brewery.Proofs.Script.Rendering
import Brewery.Proofs.Text.Replace

/-!
Literal blocks. The content of a literal block is escaped so that it reads back: as the body of a
block string it is the lines of the block, it closes at the line that closes the block, and the
lexer makes one token of it. This holds at any depth of inclusion, since content is never moved.
-/

namespace Brewery.Script

open Text

/-- Escaping in one pass: a backslash is doubled, three quotes are each taken as they are, and so
is `#` before a brace. -/
inductive Escaped : Text → Text → Prop where
  | nil : Escaped [] []
  | backslash {line written : Text} (onward : Escaped line written) :
      Escaped ('\\' :: line) ('\\' :: '\\' :: written)
  | quotes {line written : Text} (onward : Escaped line written) :
      Escaped ('"' :: '"' :: '"' :: line) ('\\' :: '"' :: '\\' :: '"' :: '\\' :: '"' :: written)
  | brace {line written : Text} (onward : Escaped line written) :
      Escaped ('#' :: '\x7b' :: line) ('\\' :: '#' :: '\x7b' :: written)
  | plain {c : Char} {line written : Text} (bare : c ≠ '\\') (few : ¬['"', '"', '"'] <+: c :: line)
      (apart : ¬['#', '\x7b'] <+: c :: line) (onward : Escaped line written) :
      Escaped (c :: line) (c :: written)

section Escaping

def doubled (line : Text) : Text := replace ['\\'] ['\\', '\\'] line

def quoted (line : Text) : Text := replace blockQuote "\\\"\\\"\\\"".toList line

def braced (line : Text) : Text := replace "#\x7b".toList "\\#\x7b".toList line

theorem escapeBlockLine_eq (line : Text) : escapeBlockLine line = braced (quoted (doubled line)) :=
  rfl

variable {c : Char} {line : Text}

theorem doubled_pass (bare : c ≠ '\\') : doubled (c :: line) = c :: doubled line :=
  replace_cons_of_ne bare

theorem quoted_pass (other : c ≠ '"') : quoted (c :: line) = c :: quoted line :=
  replace_cons_of_ne other

theorem braced_pass (other : c ≠ '#') : braced (c :: line) = c :: braced line :=
  replace_cons_of_ne other

theorem doubled_backslash : doubled ('\\' :: line) = '\\' :: '\\' :: doubled line :=
  replace_append (List.cons_ne_nil _ _) line

theorem quoted_quotes : quoted ('"' :: '"' :: '"' :: line) =
    '\\' :: '"' :: '\\' :: '"' :: '\\' :: '"' :: quoted line :=
  replace_append (List.cons_ne_nil _ _) line

theorem braced_brace : braced ('#' :: '\x7b' :: line) = '\\' :: '#' :: '\x7b' :: braced line :=
  replace_append (List.cons_ne_nil _ _) line

-- What the earlier passes write begins with a backslash, so the later ones find a pattern where
-- it stood in the line, and only there.
theorem few_quotes (few : ¬['"', '"', '"'] <+: c :: line) : ¬blockQuote <+: c :: doubled line := by
  rintro ⟨more, same⟩
  obtain ⟨rfl, second⟩ := List.cons.inj same
  obtain ⟨after, rfl, third⟩ :=
    replace_eq_cons (List.cons_ne_nil _ _) (List.cons_ne_nil _ _) (by decide) second.symm
  obtain ⟨last, rfl, _⟩ :=
    replace_eq_cons (List.cons_ne_nil _ _) (List.cons_ne_nil _ _) (by decide) third.symm
  exact few ⟨last, rfl⟩

theorem no_brace (apart : ¬['#', '\x7b'] <+: c :: line) :
    ¬"#\x7b".toList <+: c :: quoted (doubled line) := by
  rintro ⟨more, same⟩
  obtain ⟨rfl, second⟩ := List.cons.inj same
  obtain ⟨after, third, _⟩ :=
    replace_eq_cons (List.cons_ne_nil _ _) (by decide) (by decide) second.symm
  obtain ⟨last, rfl, _⟩ :=
    replace_eq_cons (List.cons_ne_nil _ _) (List.cons_ne_nil _ _) (by decide) third
  exact apart ⟨last, rfl⟩

theorem escaped (line : Text) : Escaped line (escapeBlockLine line) := by
  induction size : line.length using Nat.strong_induction_on generalizing line with
  | _ count ih =>
      subst size
      cases line with
      | nil =>
          have empty : escapeBlockLine [] = [] := by simp [escapeBlockLine]
          rw [empty]
          exact .nil
      | cons c rest =>
          by_cases bare : c = '\\'
          · subst bare
            rw [escapeBlockLine_eq, doubled_backslash, quoted_pass (by decide),
              quoted_pass (by decide), braced_pass (by decide), braced_pass (by decide)]
            exact .backslash (ih _ (by simp) rest rfl)
          by_cases few : ['"', '"', '"'] <+: c :: rest
          · obtain ⟨more, same⟩ := few
            obtain ⟨rfl, rfl⟩ := List.cons.inj same
            change Escaped _ (braced (quoted (doubled ('"' :: '"' :: '"' :: more))))
            rw [doubled_pass (by decide), doubled_pass (by decide), doubled_pass (by decide),
              quoted_quotes, braced_pass (by decide), braced_pass (by decide),
              braced_pass (by decide), braced_pass (by decide), braced_pass (by decide),
              braced_pass (by decide)]
            have shorter : more.length < ('"' :: '"' :: '"' :: more).length := by
              simp only [List.length_cons]
              omega
            exact .quotes (ih _ shorter more rfl)
          by_cases apart : ['#', '\x7b'] <+: c :: rest
          · obtain ⟨more, same⟩ := apart
            obtain ⟨rfl, rfl⟩ := List.cons.inj same
            change Escaped _ (braced (quoted (doubled ('#' :: '\x7b' :: more))))
            rw [doubled_pass (by decide), doubled_pass (by decide), quoted_pass (by decide),
              quoted_pass (by decide), braced_brace]
            have shorter : more.length < ('#' :: '\x7b' :: more).length := by
              simp only [List.length_cons]
              omega
            exact .brace (ih _ shorter more rfl)
          · rw [escapeBlockLine_eq, doubled_pass bare]
            have kept : quoted (c :: doubled rest) = c :: quoted (doubled rest) :=
              replace_cons (few_quotes few)
            have still : braced (c :: quoted (doubled rest)) = c :: braced (quoted (doubled rest)) :=
              replace_cons (no_brace apart)
            rw [kept, still]
            exact .plain bare few apart (ih _ (by simp) rest rfl)

end Escaping

section Reading

open Coffee

variable {line written content blanks rest : Text}

theorem Escaped.front {c : Char} {more : Text} (escaped : Escaped line written)
    (shape : written ++ '\n' :: rest = c :: more) (bare : c ≠ '\\') (inside : c ≠ '\n') :
    ∃ line' written', line = c :: line' ∧ Escaped line' written' ∧
      written' ++ '\n' :: rest = more := by
  cases escaped with
  | nil => exact absurd (List.cons.inj shape).1.symm inside
  | backslash _ => exact absurd (List.cons.inj shape).1.symm bare
  | quotes _ => exact absurd (List.cons.inj shape).1.symm bare
  | brace _ => exact absurd (List.cons.inj shape).1.symm bare
  | plain _ _ _ onward =>
      obtain ⟨rfl, tail⟩ := List.cons.inj shape
      exact ⟨_, _, rfl, onward, tail⟩

/-- An escaped line, up to the end of the line, reads as the line. -/
theorem readBody_escaped (escaped : Escaped line written) (rest : Text) :
    readBody (written ++ '\n' :: rest) =
      (readBody ('\n' :: rest)).map fun read => (line ++ read.1, read.2) := by
  induction escaped with
  | nil => simp
  | backslash _ ih | quotes _ ih =>
      simp only [List.cons_append, readBody, ih, Option.map_map]
      rfl
  | brace _ ih =>
      simp only [List.cons_append, readBody]
      rw [readBody_pass (by decide) (by decide) (by decide), ih, Option.map_map, Option.map_map]
      rfl
  | @plain c line written bare few apart onward ih =>
      have closed : ¬['"', '"', '"'] <+: c :: (written ++ '\n' :: rest) := by
        rintro ⟨more, same⟩
        obtain ⟨rfl, second⟩ := List.cons.inj same
        obtain ⟨line', written', rfl, further, third⟩ :=
          onward.front second.symm (by decide) (by decide)
        obtain ⟨line'', _, rfl, _, _⟩ := further.front third (by decide) (by decide)
        exact few ⟨line'', rfl⟩
      have still : ¬['#', '\x7b'] <+: c :: (written ++ '\n' :: rest) := by
        rintro ⟨more, same⟩
        obtain ⟨rfl, second⟩ := List.cons.inj same
        obtain ⟨line', _, rfl, _, _⟩ := onward.front second.symm (by decide) (by decide)
        exact apart ⟨line', rfl⟩
      rw [List.cons_append, readBody_cons bare closed still, ih, Option.map_map]
      rfl

theorem readBody_blanks (blank : ∀ c ∈ blanks, isBlank c = true) (rest : Text) :
    readBody (blanks ++ blockQuote ++ rest) = some (blanks, rest) := by
  induction blanks with
  | nil => rfl
  | cons c more ih =>
      have here := blank c List.mem_cons_self
      have other {mark : Char} (dark : isBlank mark = false) : c ≠ mark := by
        rintro rfl
        exact absurd (here.symm.trans dark) (by simp)
      have onward := ih fun next member => blank next (List.mem_cons_of_mem _ member)
      rw [List.cons_append, List.cons_append,
        readBody_pass (other (by decide)) (other (by decide)) (other (by decide)), onward]
      rfl

/-- What is written of a block after its opening line, to the quotes that close it. -/
def blockBody (content : List Text) (blanks : Text) : Text :=
  joinWith ['\n'] (content.map escapeBlockLine ++ [blanks ++ blockQuote])

theorem blockBody_cons (line : Text) (content : List Text) (blanks : Text) :
    blockBody (line :: content) blanks = escapeBlockLine line ++ '\n' :: blockBody content blanks := by
  simp only [blockBody, List.map_cons, List.cons_append]
  rw [joinWith_cons _ _ (by simp)]
  simp

theorem readBody_blockBody {blanks : Text} (blank : ∀ c ∈ blanks, isBlank c = true)
    (content : List Text) (rest : Text) :
    readBody (blockBody content blanks ++ rest) =
      some (joinWith ['\n'] (content ++ [blanks]), rest) := by
  induction content with
  | nil => exact readBody_blanks blank rest
  | cons line more ih =>
      have value : joinWith ['\n'] (line :: more ++ [blanks]) =
          line ++ '\n' :: joinWith ['\n'] (more ++ [blanks]) := by
        rw [List.cons_append, joinWith_cons _ _ (by simp)]
        simp
      rw [blockBody_cons, value, List.append_assoc, List.cons_append,
        readBody_escaped (escaped line), readBody_pass (by decide) (by decide) (by decide), ih]
      rfl

theorem render_block (content : List Text) (blanks : Text) (later : List OutLine) :
    OutLine.render (content.map (fun line => ⟨.content, escapeBlockLine line⟩) ++
        ⟨.code, blanks ++ blockQuote⟩ :: later) =
      blockBody content blanks ++ '\n' :: OutLine.render later := by
  have body := OutLine.render_lines (content.map escapeBlockLine) ⟨.code, blanks ++ blockQuote⟩ later
  rw [List.map_map] at body
  exact body

end Reading

end Brewery.Script

namespace Brewery.Expander

open Script Text Coffee

variable {expander : Expander} {disk : Disk} {here : Standing} {text : Text} {origin : Path}

theorem Reached.indent_blank (reached : Reached expander disk text origin here) :
    ∀ c ∈ here.indent, isBlank c = true := by
  induction reached with
  | refl => exact fun c member => absurd member List.not_mem_nil
  | tail _ step ih =>
      cases step with
      | pass _ _ => exact ih
      | enter includes _ =>
          obtain ⟨target, next, rest, taken, _⟩ := includes
          intro c member
          simp only [Standing.inside, Standing.indent, List.flatten_append, List.flatten_singleton,
            List.mem_append] at member
          rcases member with before | last
          · exact ih c before
          · exact take?_inclusion_blank taken c last

/-- What a literal block in a reached file is written as. -/
theorem Reached.literal {lines : List OutLine} {first head tag : Text} {rest : List Text}
    (reached : Reached expander disk text origin here)
    (expands : expander.expandLines disk text origin = .ok lines)
    (before : here.lines = first :: rest)
    (opens : classify (logicalLine here.origin.displayName here.number first rest).line =
      .literal head tag) :
    ∃ content closing after later,
      (logicalLine here.origin.displayName here.number first rest).rest =
        content ++ closing :: after ∧
      (∀ line ∈ content, trim line ≠ tag) ∧ trim closing = tag ∧
      lines = here.written ++ (⟨.code, here.indent ++ head ++ blockQuote⟩ ::
        content.map (fun line => ⟨.content, escapeBlockLine line⟩) ++
        ⟨.code, here.indent ++ indentation closing ++ blockQuote⟩ :: later) := by
  cases block : close? (closesLiteral tag)
      (logicalLine here.origin.displayName here.number first rest).rest with
  | none =>
      have next : here.next? = some ⟨.unterminated here.number
          (trim (logicalLine here.origin.displayName here.number first rest).line),
          (logicalLine here.origin.displayName here.number first rest).number, []⟩ := by
        simp only [Standing.next?, before, take?, opens, block]
      exact absurd rfl (reached.terminated expands next _ _)
  | some found =>
      obtain ⟨content, closing, after⟩ := found
      obtain ⟨shape, inside, ends⟩ := close?_eq_some_iff.mp block
      have next : here.next? = some ⟨.block (head ++ blockQuote) (content.map escapeBlockLine)
          (indentation closing ++ blockQuote),
          (logicalLine here.origin.displayName here.number first rest).number +
            content.length + 1, after⟩ := by
        simp only [Standing.next?, before, take?, opens, block]
      obtain ⟨later, output⟩ :=
        reached.block expands next (by simp [blockQuote]) (by simp [blockQuote])
      refine ⟨content, closing, after, later, shape, fun line member => ?_, ?_, ?_⟩
      · simpa [closesLiteral] using inside line member
      · simpa [closesLiteral] using ends
      · rw [output, List.map_map, List.append_assoc here.indent head,
          List.append_assoc here.indent (indentation closing)]
        rfl

/-- A block of the given content, written behind an opener and closed by blanks and quotes, that
two readers read in the same way: as a block string it is its content and closes where it was
closed, and the lexer makes one token of it, wherever it reads code. -/
structure ReadsBack (here : Standing) (head : Text) (content : List Text) (blanks : Text)
    (lines : List OutLine) (later : List OutLine) : Prop where
  blank : ∀ c ∈ blanks, isBlank c = true
  written : lines = here.written ++ (⟨.code, here.indent ++ head ++ blockQuote⟩ ::
    content.map (fun line => ⟨.content, escapeBlockLine line⟩) ++
    ⟨.code, blanks ++ blockQuote⟩ :: later)
  rendered : OutLine.render lines = OutLine.render here.written ++ here.indent ++ head ++
    (blockQuote ++ '\n' :: blockBody content blanks) ++ '\n' :: OutLine.render later
  value : ∀ more, readBody (blockBody content blanks ++ more) =
    some (joinWith ['\n'] (content ++ [blanks]), more)
  token : ∀ frames more, ReadsCode frames →
    lex frames (blockQuote ++ '\n' :: blockBody content blanks ++ more) =
        .literal :: lex frames more ∧
      framesAfter frames (blockQuote ++ '\n' :: blockBody content blanks ++ more) =
        framesAfter frames more

/-- Every literal block that a successful expansion comes to is written so that it reads back. -/
theorem literal_blocks_read_back {lines : List OutLine} {first head tag : Text} {rest : List Text}
    (reached : Reached expander disk text origin here)
    (expands : expander.expandLines disk text origin = .ok lines)
    (before : here.lines = first :: rest)
    (opens : classify (logicalLine here.origin.displayName here.number first rest).line =
      .literal head tag) :
    ∃ content closing after later,
      (logicalLine here.origin.displayName here.number first rest).rest =
        content ++ closing :: after ∧
      (∀ line ∈ content, trim line ≠ tag) ∧ trim closing = tag ∧
      ReadsBack here head content (here.indent ++ indentation closing) lines later := by
  obtain ⟨content, closing, after, later, shape, inside, ends, written⟩ :=
    reached.literal expands before opens
  have blank : ∀ c ∈ here.indent ++ indentation closing, isBlank c = true := by
    intro c member
    rcases List.mem_append.mp member with outer | own
    · exact reached.indent_blank c outer
    · exact List.mem_takeWhile_imp own
  refine ⟨content, closing, after, later, shape, inside, ends, blank, written, ?_,
    readBody_blockBody blank content, ?_⟩
  · rw [written, OutLine.render_append, List.cons_append, OutLine.render_cons, render_block]
    simp
  · intro frames more code
    have body := readBody_blockBody blank content more
    have value : readBody ('\n' :: (blockBody content (here.indent ++ indentation closing) ++ more)) =
        some ('\n' :: joinWith ['\n'] (content ++ [here.indent ++ indentation closing]), more) := by
      rw [readBody_pass (by decide) (by decide) (by decide), body]
      rfl
    exact lex_blockString code value

/-- The block of a file that is two directives deep. -/
theorem innerText_reads_back : ∃ lines content closing after later,
    plain.expandLines nested mainText mainPath = .ok lines ∧
      ["say #\x7bx\x7d".toList, "T".toList] = content ++ closing :: after ∧
      (∀ line ∈ content, trim line ≠ "T".toList) ∧ trim closing = "T".toList ∧
      ReadsBack (atInner.inside "  ".toList innerPath ["b".toList] innerText) "t = ".toList
        content ("    ".toList ++ indentation closing) lines later := by
  have reached := atInner_reached.tail (.enter atInner_includes (by decide))
  have before : physicalLines innerText =
      "t = <<<T".toList :: ["say #\x7bx\x7d".toList, "T".toList] := by decide +kernel
  have opens : classify (logicalLine innerPath.displayName 1 "t = <<<T".toList
      ["say #\x7bx\x7d".toList, "T".toList]).line = .literal "t = ".toList "T".toList := by
    decide +kernel
  have below : (logicalLine innerPath.displayName 1 "t = <<<T".toList
      ["say #\x7bx\x7d".toList, "T".toList]).rest =
        ["say #\x7bx\x7d".toList, "T".toList] := by
    decide +kernel
  obtain ⟨content, closing, after, later, shape, found⟩ :=
    literal_blocks_read_back reached nested_lines before opens
  exact ⟨_, content, closing, after, later, nested_lines, below.symm.trans shape, found⟩

end Brewery.Expander
