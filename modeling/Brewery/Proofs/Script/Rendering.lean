import Brewery.Proofs.Path.Parts
import Brewery.Proofs.Text.Trimming
import Brewery.Script.Expansion

/-!
Lines as a text, and the text as lines. Each line ends in a newline, so a text is written line by
line, and its lines are read back; only a single empty line is not, for a newline that stands
alone ends no line.
-/

namespace Brewery.OutLine

@[simp] theorem render_nil : render [] = [] := rfl

theorem render_cons (line : OutLine) (lines : List OutLine) :
    render (line :: lines) = line.text ++ '\n' :: render lines := by
  cases lines with
  | nil => rfl
  | cons next more =>
      simp only [render, List.map_cons, List.isEmpty_cons, Bool.false_eq_true, if_false]
      rw [Text.joinWith_cons _ _ (by simp)]
      simp

theorem render_append (before after : List OutLine) :
    render (before ++ after) = render before ++ render after := by
  induction before with
  | nil => rfl
  | cons line rest ih => simp [render_cons, ih]

theorem render_lines (content : List Text) (last : OutLine) (later : List OutLine) :
    render (content.map (OutLine.mk .content) ++ last :: later) =
      Text.joinWith ['\n'] (content ++ [last.text]) ++ '\n' :: render later := by
  induction content with
  | nil => exact render_cons last later
  | cons line rest ih =>
      rw [List.map_cons, List.cons_append, render_cons, ih, List.cons_append,
        Text.joinWith_cons _ _ (by simp)]
      simp

end Brewery.OutLine

namespace Brewery.Text

theorem infix_joinWith {separator part : Text} {parts : List Text} (member : part ∈ parts) :
    part <:+: joinWith separator parts := by
  induction parts with
  | nil => exact absurd member List.not_mem_nil
  | cons first rest ih =>
      rcases List.mem_cons.mp member with rfl | later
      · cases rest with
        | nil => exact List.infix_rfl
        | cons next more =>
            rw [joinWith_cons _ _ (by simp), List.append_assoc]
            exact (List.prefix_append _ _).isInfix
      · rw [joinWith_cons _ _ (List.ne_nil_of_mem later)]
        exact (ih later).trans (List.suffix_append _ _).isInfix

end Brewery.Text

namespace Brewery.Script

theorem physicalLines_newline (body : Text) :
    physicalLines (body ++ ['\n']) = if body = [] then [] else Text.splitAt '\n' body := by
  have dropped : Text.dropSuffix? ['\n'] (body ++ ['\n']) = some body := by
    simp [Text.dropSuffix?, Text.dropPrefix?]
  simp only [physicalLines, dropped, Option.getD_some, List.isEmpty_iff]

theorem physicalLines_open {body : Text} {c : Char} (other : c ≠ '\n') :
    physicalLines (body ++ [c]) = Text.splitAt '\n' (body ++ [c]) := by
  have kept : Text.dropSuffix? ['\n'] (body ++ [c]) = none := by
    rw [Option.eq_none_iff_forall_not_mem]
    intro front dropped
    exact other (List.append_singleton_inj.mp (Text.dropSuffix?_eq_some_iff.mp dropped)).2
  simp [physicalLines, kept]

/-- Lines put together with a newline behind them are read back, unless they are one empty line. -/
theorem physicalLines_closed {lines : List Text} (some : lines ≠ [])
    (free : ∀ line ∈ lines, '\n' ∉ line) (other : lines ≠ [[]]) :
    physicalLines (Text.joinWith ['\n'] lines ++ ['\n']) = lines := by
  have split := Text.splitAt_joinWith some free
  rw [physicalLines_newline, if_neg, split]
  intro empty
  rw [empty] at split
  exact other split.symm

/-- Lines put together are read back, unless the last of them is empty. -/
theorem physicalLines_joined {lines : List Text} (some : lines ≠ [])
    (free : ∀ line ∈ lines, '\n' ∉ line) (last : lines.getLast? ≠ .some []) :
    physicalLines (Text.joinWith ['\n'] lines) = lines := by
  have split := Text.splitAt_joinWith some free
  rcases List.eq_nil_or_concat (Text.joinWith ['\n'] lines) with empty | ⟨front, c, shape⟩
  · rw [empty] at split
    exact absurd (by rw [← split]; rfl) last
  · rw [List.concat_eq_append] at shape
    rw [shape] at split ⊢
    by_cases newline : c = '\n'
    · rw [newline, Text.splitAt_append] at split
      exact absurd (by rw [← split, Text.splitAt, List.getLast?_concat]) last
    · rw [physicalLines_open newline, split]

theorem physicalLines_render {lines : List OutLine} (free : ∀ line ∈ lines, '\n' ∉ line.text)
    (some : OutLine.render lines ≠ ['\n']) :
    physicalLines (OutLine.render lines) = lines.map OutLine.text := by
  cases lines with
  | nil => rfl
  | cons line rest =>
      have text : OutLine.render (line :: rest) =
          Text.joinWith ['\n'] ((line :: rest).map OutLine.text) ++ ['\n'] := rfl
      rw [text] at some ⊢
      refine physicalLines_closed (by simp) ?_ fun empty => some (by rw [empty]; rfl)
      intro part member
      obtain ⟨other, inside, rfl⟩ := List.mem_map.mp member
      exact free other inside

-- The lines of a text hold no newline.
theorem physicalLines_free {text line : Text} (member : line ∈ physicalLines text) :
    '\n' ∉ line := by
  simp only [physicalLines] at member
  split at member
  · exact absurd member List.not_mem_nil
  · exact Text.not_mem_of_mem_splitAt member

theorem infix_of_mem_physicalLines {text line : Text} (member : line ∈ physicalLines text) :
    line <:+: text := by
  simp only [physicalLines] at member
  split at member
  · exact absurd member List.not_mem_nil
  · have inside : line <:+: Text.joinWith ['\n'] _ := Text.infix_joinWith member
    rw [Text.joinWith_splitAt] at inside
    apply inside.trans
    cases dropped : Text.dropSuffix? ['\n'] text with
    | none => exact List.infix_rfl
    | some body =>
        rw [Text.dropSuffix?_eq_some_iff.mp dropped]
        exact (List.prefix_append _ _).isInfix

end Brewery.Script
