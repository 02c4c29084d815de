import Brewery.Coffee.Lexer

/-!
Block strings. The body of a block string is read to the three quotes that close it; a backslash
takes the next character as it is, and an interpolation would make the string more than a text.
The lexer passes over exactly what is read in this way, and makes one token of it.
-/

namespace Brewery.Coffee

/-- The value of a block string's body and what follows its closing quotes, unless the string
is never closed or holds an interpolation. -/
def readBody : Text → Option (Text × Text)
  | [] => none
  | ['\\'] => none
  | '\\' :: c :: rest => (readBody rest).map fun read => (c :: read.1, read.2)
  | '"' :: '"' :: '"' :: rest => some ([], rest)
  | '#' :: '\x7b' :: _ => none
  | c :: rest => (readBody rest).map fun read => (c :: read.1, read.2)

/-- Frames in which the next character is code. -/
def ReadsCode : List Frame → Prop
  | [] => True
  | .interpolation _ :: _ => True
  | _ => False

variable {frames outer : List Frame} {text value rest : Text}

theorem readBody_cons {c : Char} (plain : c ≠ '\\') (open_ : ¬['"', '"', '"'] <+: c :: text)
    (still : ¬['#', '\x7b'] <+: c :: text) :
    readBody (c :: text) = (readBody text).map fun read => (c :: read.1, read.2) := by
  rw [readBody]
  · exact fun same _ => plain same
  · exact fun _ _ same _ => plain same
  · rintro more rfl rfl
    exact open_ ⟨more, rfl⟩
  · rintro more rfl rfl
    exact still ⟨more, rfl⟩

theorem readBody_pass {c : Char} (bare : c ≠ '\\') (quote : c ≠ '"') (mark : c ≠ '#') :
    readBody (c :: text) = (readBody text).map fun read => (c :: read.1, read.2) := by
  apply readBody_cons bare
  · rintro ⟨_, same⟩
    exact quote (List.cons.inj same).1.symm
  · rintro ⟨_, same⟩
    exact mark (List.cons.inj same).1.symm

/-- The lexer passes over a body as it reads, and makes one token of it. -/
theorem lex_body (read : readBody text = some (value, rest)) :
    lex (.quoted '"' true :: outer) text = .literal :: lex outer rest ∧
      framesAfter (.quoted '"' true :: outer) text = framesAfter outer rest := by
  induction text using readBody.induct generalizing value rest with
  | case1 => exact absurd read (by simp [readBody])
  | case2 => exact absurd read (by simp [readBody])
  | case3 c text ih =>
      rw [readBody] at read
      obtain ⟨⟨inner, after⟩, found, same⟩ := Option.map_eq_some_iff.mp read
      cases same
      have quoted : step (.quoted '"' true :: outer) '\\' (c :: text) =
          ⟨[], .quoted '"' true :: outer, text⟩ := by
        simp [step, stringStep]
      rw [lex, framesAfter, quoted]
      exact ih found
  | case4 text =>
      rw [readBody] at read
      cases read
      have closed : step (.quoted '"' true :: outer) '"' ('"' :: '"' :: text) =
          ⟨[.literal], outer, text⟩ := by
        simp [step, stringStep]
      rw [lex, framesAfter, closed]
      exact ⟨rfl, rfl⟩
  | case5 text => exact absurd read (by simp [readBody])
  | case6 c text single pair quotes brace ih =>
      have plain : c ≠ '\\' := by
        intro same
        cases text with
        | nil => exact single same rfl
        | cons next more => exact pair next more same rfl
      have open_ : ¬['"', '"', '"'] <+: c :: text := by
        rintro ⟨more, same⟩
        obtain ⟨quote, tail⟩ := List.cons.inj same
        exact quotes more quote.symm tail.symm
      have still : ¬['#', '\x7b'] <+: c :: text := by
        rintro ⟨more, same⟩
        obtain ⟨mark, tail⟩ := List.cons.inj same
        exact brace more mark.symm tail.symm
      rw [readBody_cons plain open_ still] at read
      obtain ⟨⟨inner, after⟩, found, same⟩ := Option.map_eq_some_iff.mp read
      cases same
      have passed : step (.quoted '"' true :: outer) c text =
          ⟨[], .quoted '"' true :: outer, text⟩ := by
        have code : ¬(c = '#' ∧ text.head? = some '\x7b') := by
          rintro ⟨mark, head⟩
          obtain ⟨tail, shape⟩ := List.head?_eq_some_iff.mp head
          exact brace tail mark shape
        have inside : c = '"' → ¬['"', '"'] <+: text := by
          rintro quote ⟨tail, shape⟩
          exact quotes tail quote shape.symm
        simpa [step, stringStep, plain, code] using inside
      rw [lex, framesAfter, passed]
      exact ih found

/-- The same from the opening quotes on, wherever code is read. -/
theorem lex_blockString (code : ReadsCode frames) (read : readBody text = some (value, rest)) :
    lex frames ('"' :: '"' :: '"' :: text) = .literal :: lex frames rest ∧
      framesAfter frames ('"' :: '"' :: '"' :: text) = framesAfter frames rest := by
  have opened : step frames '"' ('"' :: '"' :: text) =
      ⟨[], .quoted '"' true :: frames, text⟩ := by
    have quote : codeStep frames '"' ('"' :: '"' :: text) =
        ⟨[], .quoted '"' true :: frames, text⟩ := by
      have blank : Text.isBlank '"' = false := by decide
      simp [codeStep, blank, isQuote]
    cases frames with
    | nil => exact quote
    | cons frame outer =>
        cases frame with
        | interpolation depth => simpa [step] using quote
        | quoted mark triple => exact absurd code id
        | comment => exact absurd code id
  rw [lex, framesAfter, opened]
  exact lex_body read

end Brewery.Coffee
