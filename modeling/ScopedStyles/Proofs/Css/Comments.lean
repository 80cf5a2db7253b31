import ScopedStyles.Proofs.Css.Context
import ScopedStyles.Proofs.Css.Nesting

namespace ScopedStyles.Css

open Selector (isQuote)
open Place

variable {quote : Char} {a cs : List Char} {d : Nat}

/-- Behind `d` open blocks the text closes them and all that it opens itself. Closing braces may be left
over. -/
inductive Closes : Nat → List Char → Prop where
  | last {cs : List Char} (h : Balanced cs) : Closes 0 cs
  | brace {d : Nat} {b cs : List Char} (hb : Balanced b) (h : Closes (d - 1) cs) :
    Closes d (b ++ '\x7d' :: cs)

theorem Closes.append (ha : Balanced a) (h : Closes d cs) : Closes d (a ++ cs) := by
  cases h with
  | last h => exact .last (ha.append h)
  | brace hb h =>
    rw [← List.append_assoc]
    exact .brace (ha.append hb) h

theorem Closes.opened (h : Closes (d + 1) cs) : Closes d ('\x7b' :: cs) := by
  cases h with
  | @brace _ b cs hb h =>
    have hblock : Balanced ('\x7b' :: (b ++ '\x7d' :: [])) := .block hb .nil
    have happend : '\x7b' :: (b ++ '\x7d' :: cs) = '\x7b' :: (b ++ '\x7d' :: []) ++ cs := by simp
    rw [happend]
    exact h.append hblock

theorem Closes.after (h : Closes d cs) : (level d).after cs = outside := by
  induction h with
  | last h => exact h.after 0
  | brace hb _ ih =>
    rw [after_append, hb.after, after_cons, next_close]
    exact ih

theorem exists_string : ∀ {cs : List Char}, ((within d quote).after cs).isTop = true →
    ∃ s rest, cs = s ++ rest ∧ Selector.Body quote s ∧ ((level d).after rest).isTop = true
  | [], h => by cases h
  | c :: cs, h => by
    by_cases hslash : c = '\\'
    · subst hslash
      cases cs with
      | nil => cases h
      | cons c cs =>
        rw [after_cons, after_cons, next_escape] at h
        obtain ⟨s, rest, rfl, hs, hrest⟩ := exists_string h
        exact ⟨'\\' :: c :: s, rest, rfl, .escape c hs, hrest⟩
    · by_cases hquote : c = quote
      · subst hquote
        rw [after_cons, next_end hslash] at h
        exact ⟨[c], cs, rfl, .close, h⟩
      · rw [after_cons, next_inner hquote hslash] at h
        obtain ⟨s, rest, rfl, hs, hrest⟩ := exists_string h
        exact ⟨c :: s, rest, rfl, .char hquote hslash hs, hrest⟩

theorem closes_of_isTop {d : Nat} (cs : List Char) (h : ((level d).after cs).isTop = true) :
    Closes d cs := by
  cases cs with
  | nil =>
    have hd : d = 0 := by simpa [Place.after, level, isTop] using h
    subst hd
    exact .last .nil
  | cons c cs =>
    rw [after_cons] at h
    -- a string or a brace in front, or a character that the reading does not mind
    by_cases hquote : isQuote c = true
    · rw [next_quote hquote] at h
      obtain ⟨s, rest, rfl, hs, hrest⟩ := exists_string h
      have hstring : Balanced (c :: s ++ []) := .string (.quoted hquote hs) .nil
      rw [List.append_nil] at hstring
      exact (closes_of_isTop rest hrest).append hstring
    · by_cases hopen : c = '\x7b'
      · subst hopen
        rw [next_open] at h
        exact (closes_of_isTop cs h).opened
      · by_cases hclose : c = '\x7d'
        · subst hclose
          rw [next_close] at h
          exact .brace .nil (closes_of_isTop cs h)
        · have hc : isPaired c = false := by simp [isPaired, hquote, hopen, hclose]
          rw [next_unpaired hc] at h
          exact (closes_of_isTop cs h).append (.char hc .nil)
termination_by cs.length

/-- A comment in front changes which ampersands of a source stand for the anchor, unless it closes the
strings and blocks that its own text opens. -/
theorem comment_passed_iff (c : Comment) :
    (∀ replacement source,
      expandAnchor replacement source <:+ expandAnchor replacement (c.chars ++ source)) ↔
      Closes 0 c.chars := by
  simp only [expandAnchor, expandFrom_append]
  constructor
  · intro h
    apply closes_of_isTop
    -- a lone ampersand tells whether the top is where the comment ends
    cases htop : (outside.after c.chars).isTop with
    | true => exact htop
    | false =>
      obtain ⟨front, hsuffix⟩ := h ['.'] ['&']
      rw [expandFrom_copied _ (.inl htop)] at hsuffix
      have hlast : ['.'] = ['&'] := (List.append_inj' hsuffix rfl).2
      exact absurd hlast (by decide)
  · intro h replacement source
    rw [show outside.after c.chars = outside from h.after]
    exact List.suffix_append _ _

/-- Behind a comment with an apostrophe in it no ampersand is replaced. -/
theorem not_passed_apostrophe :
    ¬ ∀ (c : Comment) (replacement source : List Char),
      expandAnchor replacement source <:+ expandAnchor replacement (c.chars ++ source) := by
  intro hall
  have hsuffix := hall ⟨"don't".toList, by decide⟩ ".x".toList "&".toList
  exact absurd hsuffix (by decide)

end ScopedStyles.Css
