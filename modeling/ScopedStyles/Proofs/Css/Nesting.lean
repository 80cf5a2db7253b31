import ScopedStyles.Css.Anchor
import ScopedStyles.Proofs.Selector.Canonical

namespace ScopedStyles.Css

open Selector (IsString isQuote)

/-- Quotes and braces come in pairs. They are all that the reading of a source minds outside of strings. -/
def isPaired (c : Char) : Bool :=
  isQuote c || c == '\x7b' || c == '\x7d'

inductive Balanced : List Char → Prop where
  | nil : Balanced []
  | char {c : Char} {cs : List Char} (hc : isPaired c = false) (h : Balanced cs) : Balanced (c :: cs)
  | string {s cs : List Char} (hs : IsString s) (h : Balanced cs) : Balanced (s ++ cs)
  | block {body cs : List Char} (hbody : Balanced body) (h : Balanced cs) :
    Balanced ('\x7b' :: (body ++ '\x7d' :: cs))

variable {c quote : Char} {a b s : List Char} {p q r : Place}

theorem Balanced.append (ha : Balanced a) (hb : Balanced b) : Balanced (a ++ b) := by
  induction ha with
  | nil => exact hb
  | char hc _ ih => exact .char hc ih
  | string hs _ ih =>
    rw [List.append_assoc]
    exact .string hs ih
  | block hbody _ _ ih =>
    rw [List.cons_append, List.append_assoc]
    exact .block hbody ih

namespace Place

def level (d : Nat) : Place :=
  ⟨d, none, false⟩

def within (d : Nat) (quote : Char) : Place :=
  ⟨d, some quote, false⟩

def after (p : Place) (cs : List Char) : Place :=
  cs.foldl next p

theorem after_cons (p : Place) (c : Char) (cs : List Char) : p.after (c :: cs) = (p.next c).after cs :=
  rfl

theorem after_append (p : Place) (a b : List Char) : p.after (a ++ b) = (p.after a).after b :=
  List.foldl_append

theorem next_open (d : Nat) : (level d).next '\x7b' = level (d + 1) :=
  rfl

theorem next_close (d : Nat) : (level d).next '\x7d' = level (d - 1) :=
  rfl

theorem next_quote (hquote : isQuote quote = true) (d : Nat) :
    (level d).next quote = within d quote := by
  simp only [isQuote, Bool.or_eq_true, beq_iff_eq] at hquote
  exact if_pos hquote

theorem next_unpaired (hc : isPaired c = false) (d : Nat) : (level d).next c = level d := by
  simp only [isPaired, isQuote, Bool.or_eq_false_iff, beq_eq_false_iff_ne] at hc
  obtain ⟨⟨⟨hdouble, hsingle⟩, hopen⟩, hclose⟩ := hc
  simp [next, level, hdouble, hsingle, hopen, hclose]

theorem next_end (hslash : quote ≠ '\\') (d : Nat) : (within d quote).next quote = level d := by
  simp [next, within, level, hslash]

theorem next_inner (hquote : c ≠ quote) (hslash : c ≠ '\\') (d : Nat) :
    (within d quote).next c = within d quote := by
  simp [next, within, hslash, hquote]

theorem next_escape (d : Nat) (quote c : Char) :
    ((within d quote).next '\\').next c = within d quote :=
  rfl

end Place

open Place

/-- Read from the place `p` on, the text is copied and leads to the place `q`. -/
structure Copied (p : Place) (cs : List Char) (q : Place) : Prop where
  after : p.after cs = q
  expand : ∀ replacement, expandFrom replacement p cs = cs

theorem expandFrom_append (replacement : List Char) (p : Place) (a b : List Char) :
    expandFrom replacement p (a ++ b) =
      expandFrom replacement p a ++ expandFrom replacement (p.after a) b := by
  induction a generalizing p with
  | nil => rfl
  | cons c a ih =>
    rw [List.cons_append, expandFrom, expandFrom, ih, List.append_assoc]
    rfl

theorem expandFrom_copied (replacement : List Char) (h : p.isTop = false ∨ c ≠ '&')
    (cs : List Char) :
    expandFrom replacement p (c :: cs) = c :: expandFrom replacement (p.next c) cs := by
  have hcopied : (p.isTop && c == '&') = false := by
    rcases h with htop | hc
    · rw [htop, Bool.false_and]
    · rw [beq_false_of_ne hc, Bool.and_false]
  rw [expandFrom, hcopied]
  rfl

namespace Copied

theorem nil (p : Place) : Copied p [] p :=
  ⟨rfl, fun _ => rfl⟩

theorem cons (hc : p.isTop = false ∨ c ≠ '&') (hnext : p.next c = q) (h : Copied q a r) :
    Copied p (c :: a) r := by
  subst hnext
  exact ⟨h.after, fun replacement => by rw [expandFrom_copied replacement hc, h.expand]⟩

theorem append (ha : Copied p a q) (hb : Copied q b r) : Copied p (a ++ b) r where
  after := by rw [after_append, ha.after, hb.after]
  expand replacement := by rw [expandFrom_append, ha.expand, ha.after, hb.expand]

theorem front (h : Copied p a q) (replacement cs : List Char) :
    expandFrom replacement p (a ++ cs) = a ++ expandFrom replacement q cs := by
  rw [expandFrom_append, h.expand, h.after]

end Copied

theorem copied_inner (hquote : quote ≠ '\\') (h : Selector.Body quote s) (d : Nat) :
    Copied (within d quote) s (level d) := by
  induction h with
  | close => exact .cons (.inl rfl) (next_end hquote d) (.nil _)
  | char hne hslash _ ih => exact .cons (.inl rfl) (next_inner hne hslash d) ih
  | escape c _ ih => exact .cons (.inl rfl) rfl (.cons (.inl rfl) (next_escape d quote c) ih)

theorem copied_string (h : IsString s) (d : Nat) : Copied (level d) s (level d) := by
  cases h with
  | @quoted quote _ hquote hinner =>
    have hampersand : quote ≠ '&' := by
      rintro rfl
      exact absurd hquote (by decide)
    exact .cons (.inr hampersand) (next_quote hquote d)
      (copied_inner (Selector.ne_slash_of_isQuote hquote) hinner d)

theorem Balanced.after (h : Balanced b) (d : Nat) : (level d).after b = level d := by
  induction h generalizing d with
  | nil => rfl
  | char hc _ ih =>
    rw [after_cons, next_unpaired hc]
    exact ih d
  | string hs _ ih =>
    rw [after_append, (copied_string hs d).after]
    exact ih d
  | block _ _ ihbody ih =>
    rw [after_cons, next_open, after_append, ihbody, after_cons, next_close]
    exact ih d

theorem Balanced.copied (h : Balanced b) (d : Nat) : Copied (level (d + 1)) b (level (d + 1)) := by
  induction h generalizing d with
  | nil => exact .nil _
  | char hc _ ih => exact .cons (.inl rfl) (next_unpaired hc _) (ih d)
  | string hs _ ih => exact (copied_string hs _).append (ih d)
  | block _ _ ihbody ih =>
    exact .cons (.inl rfl) (next_open _) ((ihbody (d + 1)).append (.cons (.inl rfl) (next_close _) (ih d)))

theorem copied_block (h : Balanced b) : Copied outside ('\x7b' :: (b ++ ['\x7d'])) outside :=
  .cons (.inr (by decide)) (next_open 0)
    ((h.copied 0).append (.cons (.inr (by decide)) (next_close 1) (.nil _)))

variable (replacement : List Char)

def withAnchor (cs : List Char) : List Char :=
  cs.flatMap fun c => if c = '&' then replacement else [c]

theorem expandFrom_prelude (h : ∀ c ∈ a, isPaired c = false) (cs : List Char) :
    expandFrom replacement outside (a ++ cs) =
      withAnchor replacement a ++ expandFrom replacement outside cs := by
  induction a with
  | nil => rfl
  | cons c a ih =>
    obtain ⟨hc, ha⟩ := List.forall_mem_cons.1 h
    have hnext : outside.next c = outside := next_unpaired hc 0
    rw [List.cons_append, expandFrom, hnext, ih ha, withAnchor, withAnchor, List.flatMap_cons,
      List.append_assoc]
    by_cases hampersand : c = '&'
    · rw [if_pos hampersand, hampersand]
      rfl
    · rw [if_neg hampersand, beq_false_of_ne hampersand, Bool.and_false]
      rfl

/-- A prelude and, again and again, the body of a block with the prelude behind it. -/
def sheet (first : List Char) (rules : List (List Char × List Char)) : List Char :=
  first ++ rules.flatMap fun r => '\x7b' :: (r.1 ++ ['\x7d']) ++ r.2

/-- In a row of preludes and blocks exactly the ampersands of the preludes are replaced. -/
theorem expandAnchor_sheet (first : List Char) (rules : List (List Char × List Char))
    (hfirst : ∀ c ∈ first, isPaired c = false)
    (hrules : ∀ r ∈ rules, Balanced r.1 ∧ ∀ c ∈ r.2, isPaired c = false) :
    expandAnchor replacement (sheet first rules) =
      sheet (withAnchor replacement first)
        (rules.map fun r => (r.1, withAnchor replacement r.2)) := by
  rw [expandAnchor, sheet, sheet, expandFrom_prelude replacement hfirst]
  congr 1
  -- a balanced block leads back to a place outside of all blocks, where the next prelude starts
  induction rules with
  | nil => rfl
  | cons r rules ih =>
    obtain ⟨⟨hbody, hprelude⟩, hrules⟩ := List.forall_mem_cons.1 hrules
    rw [List.map_cons, List.flatMap_cons, List.flatMap_cons, List.append_assoc,
      (copied_block hbody).front, expandFrom_prelude replacement hprelude, ih hrules,
      List.append_assoc]

/-- A string with an escaped quote and a brace in it, in a block of a block. -/
theorem expandAnchor_sheet_escapedQuote :
    (∀ c ∈ ['&'], isPaired c = false) ∧
      (∀ r ∈ [(['&', '\x7b', '"', '\\', '"', '\x7d', '&', '"', '\x7d'], ['&'])],
        Balanced r.1 ∧ ∀ c ∈ r.2, isPaired c = false) ∧
      expandAnchor ['.', 'x'] (sheet ['&']
          [(['&', '\x7b', '"', '\\', '"', '\x7d', '&', '"', '\x7d'], ['&'])]) =
        sheet ['.', 'x'] [(['&', '\x7b', '"', '\\', '"', '\x7d', '&', '"', '\x7d'], ['.', 'x'])] := by
  have hstring : IsString ['"', '\\', '"', '\x7d', '&', '"'] :=
    .quoted (by decide) (.escape '"' (.char (by decide) (by decide)
      (.char (by decide) (by decide) .close)))
  have hbody : Balanced ['&', '\x7b', '"', '\\', '"', '\x7d', '&', '"', '\x7d'] :=
    .char (by decide) (.block (.string hstring .nil) .nil)
  have hprelude : ∀ c ∈ ['&'], isPaired c = false := List.forall_mem_singleton.2 (by decide)
  have hrules : ∀ r ∈ [(['&', '\x7b', '"', '\\', '"', '\x7d', '&', '"', '\x7d'], ['&'])],
      Balanced r.1 ∧ ∀ c ∈ r.2, isPaired c = false :=
    List.forall_mem_singleton.2 ⟨hbody, hprelude⟩
  refine ⟨hprelude, hrules, ?_⟩
  rw [expandAnchor_sheet ['.', 'x'] _ _ hprelude hrules]
  rfl

end ScopedStyles.Css
