import ScopedStyles.Proofs.Css.Context
import ScopedStyles.Proofs.Selector.Canonical
import ScopedStyles.Style.Engine

namespace ScopedStyles.Style

open Css (Context Comment)
open Selector (IsString isQuote)

variable {c : Char} {s t : List Char}

/-- How far the head of a source has been read. -/
inductive Head where
  | start
  | name
  | gap
  | value
  /-- What the source is taken for no longer depends on the rest. -/
  | settled (declaration : Bool)
  deriving DecidableEq

namespace Head

def behindName (c : Char) : Head :=
  if c = ':' then value else settled false

def next : Head → Char → Head
  | start, c => if isBlank c then start else if isPropertyChar c then name else settled false
  | name, c => if isPropertyChar c then name else if isBlank c then gap else behindName c
  | gap, c => if isBlank c then gap else behindName c
  | value, c => if c = ';' then settled true else if c = '\x7b' then settled false else value
  | settled declaration, _ => settled declaration

def after (h : Head) (cs : List Char) : Head :=
  cs.foldl next h

def isDeclaration : Head → Bool
  | start | name | gap => false
  | value => true
  | settled declaration => declaration

def isPending : Head → Bool
  | start | name | gap => true
  | value | settled _ => false

theorem after_cons (h : Head) (c : Char) (cs : List Char) : h.after (c :: cs) = (h.next c).after cs :=
  rfl

theorem after_append (h : Head) (a b : List Char) : h.after (a ++ b) = (h.after a).after b :=
  List.foldl_append

theorem after_settled (declaration : Bool) (cs : List Char) :
    (settled declaration).after cs = settled declaration := by
  induction cs with
  | nil => rfl
  | cons c cs ih => exact ih

structure IsOther (c : Char) : Prop where
  blank : isBlank c = false
  name : isPropertyChar c = false
  colon : c ≠ ':'
  semicolon : c ≠ ';'
  brace : c ≠ '\x7b'

theorem isOther_of_opening (h : isQuote c = true ∨ c = '/') : IsOther c := by
  simp only [isQuote, Bool.or_eq_true, beq_iff_eq] at h
  rcases h with (rfl | rfl) | rfl
  · exact ⟨by decide, by decide, by decide, by decide, by decide⟩
  · exact ⟨by decide, by decide, by decide, by decide, by decide⟩
  · exact ⟨by decide, by decide, by decide, by decide, by decide⟩

theorem next_pending {h : Head} (hh : h.isPending = true) (hc : IsOther c) :
    h.next c = settled false := by
  cases h with
  | start => simp [next, hc.blank, hc.name]
  | name => simp [next, hc.blank, hc.name, behindName, hc.colon]
  | gap => simp [next, hc.blank, behindName, hc.colon]
  | value => cases hh
  | settled => cases hh

theorem isDeclaration_pending {h : Head} (hh : h.isPending = true) : h.isDeclaration = false := by
  cases h with
  | start => rfl
  | name => rfl
  | gap => rfl
  | value => cases hh
  | settled => cases hh

theorem settled_of {h : Head} (hvalue : h ≠ value) (hh : ¬ h.isPending = true) :
    ∃ declaration, h = settled declaration := by
  cases h with
  | settled declaration => exact ⟨declaration, rfl⟩
  | value => exact absurd rfl hvalue
  | start => exact absurd rfl hh
  | name => exact absurd rfl hh
  | gap => exact absurd rfl hh

/-- Except in the value of the first declaration, what stands behind such a character decides nothing. -/
theorem isDeclaration_other {h : Head} (hvalue : h ≠ value) (hc : IsOther c) (cs : List Char) :
    (h.after (c :: cs)).isDeclaration = h.isDeclaration := by
  by_cases hh : h.isPending = true
  · rw [after_cons, next_pending hh hc, after_settled, isDeclaration_pending hh]
    rfl
  · obtain ⟨declaration, rfl⟩ := settled_of hvalue hh
    rw [after_settled]

end Head

open Head

theorem trimStart_blank (hc : isBlank c = true) (cs : List Char) : trimStart (c :: cs) = trimStart cs :=
  List.dropWhile_cons_of_pos hc

theorem trimStart_other (hc : ¬ isBlank c = true) (cs : List Char) : trimStart (c :: cs) = c :: cs :=
  List.dropWhile_cons_of_neg hc

def opensBlock (cs : List Char) : Bool :=
  (cs.takeWhile (· != ';')).contains '\x7b'

theorem opensBlock_semicolon (cs : List Char) : opensBlock (';' :: cs) = false :=
  rfl

theorem opensBlock_brace (cs : List Char) : opensBlock ('\x7b' :: cs) = true :=
  rfl

theorem opensBlock_cons (hsemicolon : c ≠ ';') (hbrace : c ≠ '\x7b') (cs : List Char) :
    opensBlock (c :: cs) = opensBlock cs := by
  simp [opensBlock, hsemicolon, hbrace.symm]

theorem opensBlock_blank (hc : isBlank c = true) (cs : List Char) :
    opensBlock (c :: cs) = opensBlock cs := by
  apply opensBlock_cons
  · rintro rfl
    exact absurd hc (by decide)
  · rintro rfl
    exact absurd hc (by decide)

theorem opensBlock_propertyChar (hc : isPropertyChar c = true) (cs : List Char) :
    opensBlock (c :: cs) = opensBlock cs := by
  apply opensBlock_cons
  · rintro rfl
    exact absurd hc (by decide)
  · rintro rfl
    exact absurd hc (by decide)

theorem isDeclaration_value (cs : List Char) :
    (value.after cs).isDeclaration = !opensBlock cs := by
  induction cs with
  | nil => rfl
  | cons c cs ih =>
    rw [after_cons, next]
    by_cases hsemicolon : c = ';'
    · rw [if_pos hsemicolon, after_settled, hsemicolon, opensBlock_semicolon]
      rfl
    · by_cases hbrace : c = '\x7b'
      · rw [if_neg hsemicolon, if_pos hbrace, after_settled, hbrace, opensBlock_brace]
        rfl
      · rw [if_neg hsemicolon, if_neg hbrace, opensBlock_cons hsemicolon hbrace, ih]

theorem isDeclaration_behindName (c : Char) (cs : List Char) :
    ((behindName c).after cs).isDeclaration = (c == ':' && !opensBlock (c :: cs)) := by
  rw [behindName]
  by_cases hcolon : c = ':'
  · subst hcolon
    rw [if_pos rfl, isDeclaration_value, opensBlock_cons (by decide) (by decide)]
    rfl
  · rw [if_neg hcolon, after_settled, beq_false_of_ne hcolon, Bool.false_and]
    rfl

theorem isDeclaration_gap (cs : List Char) :
    (gap.after cs).isDeclaration = ((trimStart cs).head? == some ':' && !opensBlock cs) := by
  induction cs with
  | nil => rfl
  | cons c cs ih =>
    rw [after_cons, next]
    by_cases hblank : isBlank c = true
    · rw [if_pos hblank, ih, opensBlock_blank hblank, trimStart_blank hblank]
    · rw [if_neg hblank, isDeclaration_behindName, trimStart_other hblank]
      rfl

theorem isDeclaration_name (cs : List Char) :
    (name.after cs).isDeclaration =
      ((trimStart (cs.dropWhile isPropertyChar)).head? == some ':' && !opensBlock cs) := by
  induction cs with
  | nil => rfl
  | cons c cs ih =>
    by_cases hname : isPropertyChar c = true
    · rw [after_cons, next, if_pos hname, ih, opensBlock_propertyChar hname,
        List.dropWhile_cons_of_pos hname]
    · -- a name ends like the white space behind it
      have hnext : name.next c = gap.next c := by rw [next, if_neg hname, next]
      rw [after_cons, hnext, ← after_cons, isDeclaration_gap, List.dropWhile_cons_of_neg hname]

theorem isDeclaration_start (cs : List Char) :
    (start.after cs).isDeclaration =
      (!((trimStart cs).takeWhile isPropertyChar).isEmpty &&
        (trimStart ((trimStart cs).dropWhile isPropertyChar)).head? == some ':' &&
        !opensBlock (trimStart cs)) := by
  induction cs with
  | nil => rfl
  | cons c cs ih =>
    rw [after_cons, next]
    by_cases hblank : isBlank c = true
    · rw [if_pos hblank, ih, trimStart_blank hblank]
    · rw [if_neg hblank, trimStart_other hblank]
      by_cases hname : isPropertyChar c = true
      · rw [if_pos hname, isDeclaration_name, List.takeWhile_cons_of_pos hname,
          List.dropWhile_cons_of_pos hname, opensBlock_propertyChar hname]
        rfl
      · rw [if_neg hname, after_settled, List.takeWhile_cons_of_neg hname]
        rfl

/-- What a source is taken for is what its head is read to. -/
theorem isDeclarationBlock_eq (source : String) :
    isDeclarationBlock source = (start.after source.toList).isDeclaration :=
  (isDeclaration_start source.toList).symm

/-- Both texts are taken for declarations and wrapped into a block, or both are compiled as rules. -/
def Alike (s t : List Char) : Prop :=
  isDeclarationBlock (String.ofList s) = isDeclarationBlock (String.ofList t) ∧
    ∀ key, (callOf key (String.ofList s)).options = (callOf key (String.ofList t)).options

theorem alike_iff :
    Alike s t ↔ (start.after s).isDeclaration = (start.after t).isDeclaration := by
  have hs := isDeclarationBlock_eq (String.ofList s)
  have ht := isDeclarationBlock_eq (String.ofList t)
  rw [String.toList_ofList] at hs ht
  rw [Alike, hs, ht]
  constructor
  · exact fun h => h.1
  · intro h
    refine ⟨h, fun key => ?_⟩
    rw [callOf, callOf, hs, ht, h]
    split
    · rfl
    · rfl

structure Literal where
  before : List Char
  quote : Char
  content : List Char
  behind : List Char
  opened : (Context.plain.after before).isOpen = true
  string : IsString (quote :: (content ++ [quote]))

namespace Literal

def sourceWith (l : Literal) (content : List Char) : List Char :=
  l.before ++ l.quote :: (content ++ l.quote :: l.behind)

def source (l : Literal) : List Char :=
  l.sourceWith l.content

theorem isOther_quote (l : Literal) : IsOther l.quote := by
  cases l.string with
  | quoted hquote => exact isOther_of_opening (.inl hquote)

theorem isDeclaration_of_value (l : Literal) (h : start.after l.before = value)
    (content : List Char) :
    (start.after (l.sourceWith content)).isDeclaration =
      !opensBlock (content ++ l.quote :: l.behind) := by
  rw [sourceWith, after_append, h, isDeclaration_value,
    opensBlock_cons l.isOther_quote.semicolon l.isOther_quote.brace]

theorem isDeclaration_of_ne_value (l : Literal) (h : start.after l.before ≠ value)
    (content : List Char) :
    (start.after (l.sourceWith content)).isDeclaration = (start.after l.before).isDeclaration := by
  rw [sourceWith, after_append, isDeclaration_other h l.isOther_quote]

theorem alike_iff (l : Literal) (content content' : List Char) :
    Alike (l.sourceWith content) (l.sourceWith content') ↔ (start.after l.before = value →
      opensBlock (content ++ l.quote :: l.behind) = opensBlock (content' ++ l.quote :: l.behind)) := by
  rw [Style.alike_iff]
  by_cases hvalue : start.after l.before = value
  · rw [l.isDeclaration_of_value hvalue, l.isDeclaration_of_value hvalue, Bool.not_inj_iff]
    exact ⟨fun h _ => h, fun h => h hvalue⟩
  · rw [l.isDeclaration_of_ne_value hvalue, l.isDeclaration_of_ne_value hvalue]
    exact iff_of_true rfl fun h => absurd h hvalue

end Literal

def IsPlain (content : List Char) : Prop :=
  ∀ c ∈ content, isQuote c = false ∧ c ≠ '\\'

/-- Any content of a string does, exactly if it does not stand in the value of the first declaration. -/
theorem Literal.alike_all_iff (l : Literal) :
    (∀ content, IsPlain content → Alike (l.sourceWith content) l.source) ↔
      start.after l.before ≠ value := by
  simp only [source, l.alike_iff]
  constructor
  · intro hall hvalue
    -- a brace and a semicolon at the beginning of the string decide differently
    have hbrace := hall ['\x7b'] (List.forall_mem_singleton.2 ⟨by decide, by decide⟩) hvalue
    have hsemicolon := hall [';'] (List.forall_mem_singleton.2 ⟨by decide, by decide⟩) hvalue
    have heq := hbrace.trans hsemicolon.symm
    rw [List.singleton_append, List.singleton_append, opensBlock_brace, opensBlock_semicolon] at heq
    cases heq
  · intro hvalue content _ h
    exact absurd h hvalue

structure Commented where
  before : List Char
  comment : Comment
  behind : List Char
  opened : (Context.plain.after before).isOpen = true

namespace Commented

def source (r : Commented) : List Char :=
  r.before ++ (r.comment.chars ++ r.behind)

def spaced (r : Commented) : List Char :=
  r.before ++ ' ' :: r.behind

theorem isDeclaration_of_ne_value (r : Commented) (h : start.after r.before ≠ value) :
    (start.after r.source).isDeclaration = (start.after r.before).isDeclaration := by
  rw [source, after_append]
  exact isDeclaration_other h (isOther_of_opening (.inr rfl)) _

/-- A space for a comment makes no difference, unless the comment opens a block in the value of the first
declaration, or in front of its colon hides that there is one. -/
theorem alike_iff (r : Commented) :
    Alike r.spaced r.source ↔
      (start.after r.before = value →
        opensBlock r.behind = opensBlock (r.comment.chars ++ r.behind)) ∧
      ((start.after r.before).isPending = true →
        isDeclarationBlock (String.ofList r.spaced) = false) := by
  have hspaced := isDeclarationBlock_eq (String.ofList r.spaced)
  rw [String.toList_ofList] at hspaced
  rw [Style.alike_iff, hspaced]
  by_cases hvalue : start.after r.before = value
  · have hpending : ¬ (start.after r.before).isPending = true := by
      rw [hvalue]
      exact Bool.false_ne_true
    rw [source, spaced, after_append, after_append, hvalue, isDeclaration_value, isDeclaration_value,
      Bool.not_inj_iff, opensBlock_blank (by decide)]
    exact ⟨fun h => ⟨fun _ => h, fun hp => absurd hp (by decide)⟩, fun h => h.1 rfl⟩
  · rw [r.isDeclaration_of_ne_value hvalue]
    by_cases hpending : (start.after r.before).isPending = true
    · rw [isDeclaration_pending hpending]
      exact ⟨fun h => ⟨fun hv => absurd hv hvalue, fun _ => h⟩, fun h => h.2 hpending⟩
    · obtain ⟨declaration, hsettled⟩ := settled_of hvalue hpending
      rw [spaced, after_append, hsettled, after_settled]
      exact iff_of_true rfl ⟨nofun, nofun⟩

end Commented

/-- A string is opaque to the decision between declarations and rules, exactly if it does not stand in the
value of the first declaration. There another content decides alike, exactly if a block is opened in front
of a semicolon behind both or behind neither. A space for a comment decides alike, exactly if in the value
of the first declaration it changes nothing about that, and in front of its colon leaves no declaration. -/
theorem opaque_iff (l : Literal) (r : Commented) :
    ((∀ content, IsPlain content → Alike (l.sourceWith content) l.source) ↔
      start.after l.before ≠ value) ∧
    (∀ content, Alike (l.sourceWith content) l.source ↔
      (start.after l.before = value → opensBlock (content ++ l.quote :: l.behind) =
        opensBlock (l.content ++ l.quote :: l.behind))) ∧
    (Alike r.spaced r.source ↔
      (start.after r.before = value →
        opensBlock r.behind = opensBlock (r.comment.chars ++ r.behind)) ∧
      ((start.after r.before).isPending = true →
        isDeclarationBlock (String.ofList r.spaced) = false)) :=
  ⟨l.alike_all_iff, fun content => l.alike_iff content l.content, r.alike_iff⟩

/-- A brace in the string of a first declaration makes rules of declarations, and so does a comment in
front of them. -/
theorem not_opaque_brace :
    (¬ ∀ (l : Literal) (content : List Char), IsPlain content →
      Alike (l.sourceWith content) l.source) ∧
      ¬ ∀ r : Commented, Alike r.spaced r.source := by
  constructor
  · intro hall
    let braced : Literal := ⟨"content: ".toList, '"', ['\x7b'], [';'], by decide,
      .quoted (by decide) (.char (by decide) (by decide) .close)⟩
    have halike := hall braced ['x'] (List.forall_mem_singleton.2 ⟨by decide, by decide⟩)
    exact absurd halike.1 (by decide)
  · intro hall
    have halike := hall ⟨[], ⟨['c'], by decide⟩, "color: red;".toList, by decide⟩
    exact absurd halike.1 (by decide)

end ScopedStyles.Style
