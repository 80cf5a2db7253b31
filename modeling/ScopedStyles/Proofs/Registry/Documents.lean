import ScopedStyles.Proofs.JsonText.Strings
import ScopedStyles.Scope.Registry.Reader

namespace ScopedStyles.Scope

open JsonText

variable {rest : List Char}

theorem skipSpace_newline (depth : Nat) (cs : List Char) :
    skipSpace (newline depth ++ cs) = skipSpace cs := by
  apply List.dropWhile_append_of_pos
  intro c hc
  rcases List.mem_cons.1 hc with rfl | hc
  · rfl
  · rw [List.eq_of_mem_replicate hc]
    rfl

section Objects

variable {σ : Type} {entry : σ → List Char → List Char → Except Failure (σ × List Char)}
  {s s' : σ} {key : String} {value : List Char} {entries : List (String × List Char)}

/-- What the entries of an object make of `s`, when they are read one after the other. -/
inductive Entries (entry : σ → List Char → List Char → Except Failure (σ × List Char)) :
    σ → List (String × List Char) → σ → Prop
  | nil {s : σ} : Entries entry s [] s
  | cons {s s' s'' : σ} {key : String} {value : List Char} {entries : List (String × List Char)}
    (hentry : ∀ rest, entry s (escape key.toList) (' ' :: (value ++ rest)) = .ok (s', rest))
    (hentries : Entries entry s' entries s'') : Entries entry s ((key, value) :: entries) s''

theorem skipSpace_entryChars (depth : Nat) (key : String) (value rest : List Char) :
    skipSpace (newline depth ++ (entryChars key value ++ rest)) = entryChars key value ++ rest := by
  rw [skipSpace_newline]
  rfl

theorem readEntry_entryChars
    (h : ∀ rest, entry s (escape key.toList) (' ' :: (value ++ rest)) = .ok (s', rest)) :
    readEntry entry s (entryChars key value ++ rest) = .ok (s', rest) := by
  have hchars : entryChars key value ++ rest =
      '"' :: (escape key.toList ++ '"' :: ':' :: ' ' :: (value ++ rest)) := by
    simp [entryChars, textChars]
  rw [hchars, readEntry]
  simp only [takeString_escape]
  exact h rest

theorem readEntries_laterItems (h : Entries entry s entries s') (depth outer : Nat) {fuel : Nat}
    (hfuel : entries.length < fuel) :
    readEntries entry fuel s (laterItems depth (entries.map fun e => entryChars e.1 e.2) ++
      (newline outer ++ '\x7d' :: rest)) = .ok (s', rest) := by
  induction h generalizing fuel with
  | nil =>
    cases fuel with
    | zero => cases hfuel
    | succ fuel =>
      rw [readEntries, List.map_nil, laterItems, List.nil_append, skipSpace_newline]
      rfl
  | @cons s s' s'' key value entries hentry hentries ih =>
    cases fuel with
    | zero => cases hfuel
    | succ fuel =>
      rw [readEntries, List.map_cons, laterItems, List.append_assoc, List.append_assoc]
      change (readEntry entry s (skipSpace (newline depth ++ (entryChars key value ++ _))) >>= _) = _
      rw [skipSpace_entryChars, readEntry_entryChars hentry]
      exact ih (Nat.lt_of_succ_lt_succ hfuel)

theorem length_laterItems (depth : Nat) (items : List (List Char)) :
    items.length ≤ (laterItems depth items).length := by
  induction items with
  | nil => exact Nat.le_refl 0
  | cons item items ih =>
    simp only [laterItems, List.length_cons, List.length_append]
    omega

theorem readObject_objectChars (h : Entries entry s entries s') (depth : Nat) :
    ∃ body, objectChars depth entries = '\x7b' :: body ∧
      ∀ rest, readObject entry s (body ++ rest) = .ok (s', rest) := by
  cases h with
  | nil => exact ⟨['\x7d'], rfl, fun rest => rfl⟩
  | @cons s s' s'' key value entries hentry hentries =>
    refine ⟨newline (depth + 1) ++ (entryChars key value ++
      (laterItems (depth + 1) (entries.map fun e => entryChars e.1 e.2) ++
        (newline depth ++ ['\x7d']))), by simp [objectChars, bracketed], fun rest => ?_⟩
    have hfuel := length_laterItems (depth + 1) (entries.map fun e => entryChars e.1 e.2)
    rw [List.length_map] at hfuel
    simp only [List.append_assoc]
    rw [readObject, skipSpace_entryChars]
    change (readEntry entry s (entryChars key value ++ _) >>= _) = _
    rw [readEntry_entryChars hentry]
    apply readEntries_laterItems hentries
    rw [List.length_append]
    omega

end Objects

section Arrays

variable {α σ : Type} {item : σ → List Char → Except Failure (σ × List Char)}
  {write : α → List Char} {f : σ → α → σ}

def OpensItem (write : α → List Char) : Prop :=
  ∀ x, ∃ c cs, write x = c :: cs ∧ isSpace c = false ∧ c ≠ ']'

theorem opensItem_textChars : OpensItem textChars :=
  fun x => ⟨'"', escape x.toList ++ ['"'], rfl, rfl, by decide⟩

namespace OpensItem

theorem skipSpace (h : OpensItem write) (depth : Nat) (x : α) (rest : List Char) :
    JsonText.skipSpace (newline depth ++ (write x ++ rest)) = write x ++ rest := by
  obtain ⟨c, cs, hx, hspace, -⟩ := h x
  rw [skipSpace_newline, hx]
  exact List.dropWhile_cons_of_neg (by rw [hspace]; exact Bool.false_ne_true)

theorem ne_closed (h : OpensItem write) (x : α) (rest cs : List Char) : write x ++ rest ≠ ']' :: cs := by
  obtain ⟨c, cs', hx, -, hclosed⟩ := h x
  rw [hx]
  exact fun heq => hclosed (List.head_eq_of_cons_eq heq)

theorem ne_nil (h : OpensItem write) (x : α) (rest : List Char) : write x ++ rest ≠ [] := by
  obtain ⟨c, cs, hx, -⟩ := h x
  rw [hx]
  exact List.cons_ne_nil c _

end OpensItem

theorem readItems_laterItems (hopens : OpensItem write)
    (hitem : ∀ s x rest, item s (write x ++ rest) = .ok (f s x, rest)) (depth outer : Nat)
    (s : σ) {xs : List α} {fuel : Nat} (hfuel : xs.length < fuel) :
    readItems item fuel s (laterItems depth (xs.map write) ++ (newline outer ++ ']' :: rest)) =
      .ok (xs.foldl f s, rest) := by
  induction xs generalizing s fuel with
  | nil =>
    cases fuel with
    | zero => cases hfuel
    | succ fuel =>
      rw [readItems, List.map_nil, laterItems, List.nil_append, skipSpace_newline]
      rfl
  | cons x xs ih =>
    cases fuel with
    | zero => cases hfuel
    | succ fuel =>
      have hcomma : ∀ k, skipSpace (',' :: k) = ',' :: k := fun _ => rfl
      simp only [readItems, List.map_cons, laterItems, List.cons_append, List.append_assoc, hcomma,
        hopens.skipSpace]
      split
      · next hclosed => exact absurd hclosed (hopens.ne_closed x _ _)
      · rw [hitem]
        exact ih (f s x) (Nat.lt_of_succ_lt_succ hfuel)

theorem readArray_bracketed (hopens : OpensItem write) (depth : Nat) (xs : List α) :
    ∃ body, bracketed '[' ']' depth (xs.map write) = '[' :: body ∧
      ∀ {σ : Type} {item : σ → List Char → Except Failure (σ × List Char)} {f : σ → α → σ},
        (∀ s x rest, item s (write x ++ rest) = .ok (f s x, rest)) →
          ∀ s rest, readArray item s (body ++ rest) = .ok (xs.foldl f s, rest) := by
  cases xs with
  | nil => exact ⟨[']'], rfl, fun _ _ _ => rfl⟩
  | cons x xs =>
    refine ⟨newline (depth + 1) ++ (write x ++ (laterItems (depth + 1) (xs.map write) ++
      (newline depth ++ [']']))), by simp [bracketed], ?_⟩
    intro σ item f hitem s rest
    have hfuel := length_laterItems (depth + 1) (xs.map write)
    rw [List.length_map] at hfuel
    simp only [List.append_assoc]
    rw [readArray, hopens.skipSpace]
    split
    · next hclosed => exact absurd hclosed (hopens.ne_closed x _ _)
    · next hempty => exact absurd hempty (hopens.ne_nil x _)
    · rw [hitem]
      apply readItems_laterItems hopens hitem
      rw [List.length_append]
      omega

end Arrays

abbrev Rows := List (String × List String)

namespace Rows

def attributes (rows : Rows) : Attributes :=
  .ofList (rows.map fun e => (e.1, TextSet.ofList e.2))

def chars (depth : Nat) (rows : Rows) : List Char :=
  objectChars depth
    (rows.map fun e => (e.1, bracketed '[' ']' (depth + 1) (e.2.map textChars)))

end Rows

inductive ElementForm where
  | modsFirst
  | propsFirst
  | list
  deriving DecidableEq

structure ElementRow where
  form : ElementForm
  mods : Rows
  props : Rows
  deriving DecidableEq

namespace ElementRow

def element (e : ElementRow) : Element :=
  ⟨e.mods.attributes, e.props.attributes⟩

def chars (depth : Nat) (e : ElementRow) : List Char :=
  let mods := e.mods.chars (depth + 1)
  let props := e.props.chars (depth + 1)
  match e.form with
  | .modsFirst => objectChars depth [("mods", mods), ("props", props)]
  | .propsFirst => objectChars depth [("props", props), ("mods", mods)]
  | .list => bracketed '[' ']' depth [mods, props]

end ElementRow

/-- Elements by name, in any order and repeated at will. -/
abbrev Document := List (String × ElementRow)

namespace Document

/-- The last element of a name stays, as do the last values of an attribute. -/
def registry (d : Document) : Registry :=
  .ofList (d.map fun e => (e.1, e.2.element))

def text (d : Document) : String :=
  String.ofList (objectChars 0 (d.map fun e => (e.1, e.2.chars 1)))

end Document

theorem readTextSet_bracketed (depth : Nat) (xs : List String) (rest : List Char) :
    readTextSet (' ' :: (bracketed '[' ']' depth (xs.map textChars) ++ rest)) =
      .ok (.ofList xs, rest) := by
  obtain ⟨body, hbody, hread⟩ := readArray_bracketed opensItem_textChars depth xs
  have hspace : skipSpace (' ' :: ('[' :: body ++ rest)) = '[' :: (body ++ rest) := rfl
  rw [hbody, readTextSet, hspace]
  apply hread
  intro s x rest
  rw [readText_textChars]
  rfl

/-- Reading values one after the other into a map; `value` says what is read from a written one. -/
theorem entries_insertAll {α β : Type} {read : List Char → Except Failure (β × List Char)}
    {write : α → List Char} {value : α → β}
    (h : ∀ x rest, read (' ' :: (write x ++ rest)) = .ok (value x, rest))
    (m : OrderedMap β) (es : List (String × α)) :
    Entries (fun (m : OrderedMap β) key cs => do
      let name ← decode key cs
      let (v, rest) ← read cs
      .ok (m.insert name v, rest)) m (es.map fun e => (e.1, write e.2))
        (m.insertAll (es.map fun e => (e.1, value e.2))) := by
  induction es generalizing m with
  | nil => exact .nil
  | cons e es ih =>
    apply Entries.cons _ (ih (m.insert e.1 (value e.2)))
    intro rest
    simp only [decode_escape, h]
    rfl

theorem readAttributes_chars (depth : Nat) (rows : Rows) :
    ∃ body, rows.chars depth = '\x7b' :: body ∧
      ∀ rest, readAttributes (rows.chars depth ++ rest) = .ok (rows.attributes, rest) := by
  obtain ⟨body, hbody, hread⟩ := readObject_objectChars
    (entries_insertAll (readTextSet_bracketed (depth + 1)) ∅ rows) depth
  refine ⟨body, hbody, ?_⟩
  intro rest
  rw [Rows.chars, hbody]
  exact hread rest

theorem opensItem_chars (depth : Nat) : OpensItem (Rows.chars depth) := by
  intro rows
  obtain ⟨body, hbody, -⟩ := readAttributes_chars depth rows
  exact ⟨'\x7b', body, hbody, rfl, by decide⟩

section Elements

variable (depth : Nat) (rows : Rows) (rest : List Char)

theorem readAttributes_blank :
    readAttributes (' ' :: (rows.chars depth ++ rest)) = .ok (rows.attributes, rest) := by
  obtain ⟨-, -, hread⟩ := readAttributes_chars depth rows
  exact hread rest

theorem readElementField_mods (props : Option Attributes) :
    readElementField ⟨none, props⟩ (escape "mods".toList) (' ' :: (rows.chars depth ++ rest)) =
      .ok (⟨some rows.attributes, props⟩, rest) := by
  simp only [readElementField, decode_escape]
  change (readAttributes _ >>= _) = _
  rw [readAttributes_blank]
  rfl

theorem readElementField_props (mods : Option Attributes) :
    readElementField ⟨mods, none⟩ (escape "props".toList) (' ' :: (rows.chars depth ++ rest)) =
      .ok (⟨mods, some rows.attributes⟩, rest) := by
  simp only [readElementField, decode_escape]
  change (readAttributes _ >>= _) = _
  rw [readAttributes_blank]
  rfl

theorem readElement_objectChars {entries : List (String × List Char)} {mods props : Attributes}
    (h : Entries readElementField ⟨none, none⟩ entries ⟨some mods, some props⟩) :
    readElement (' ' :: (objectChars depth entries ++ rest)) = .ok (⟨mods, props⟩, rest) := by
  obtain ⟨body, hbody, hread⟩ := readObject_objectChars h depth
  rw [hbody]
  change (readObject _ _ (body ++ rest) >>= _) = _
  rw [hread]
  rfl

theorem readElement_chars (e : ElementRow) :
    readElement (' ' :: (e.chars depth ++ rest)) = .ok (e.element, rest) := by
  obtain ⟨form, mods, props⟩ := e
  have hmods := fun given rest => readElementField_mods (depth + 1) mods rest given
  have hprops := fun given rest => readElementField_props (depth + 1) props rest given
  cases form with
  | modsFirst => exact readElement_objectChars depth rest (.cons (hmods _) (.cons (hprops _) .nil))
  | propsFirst => exact readElement_objectChars depth rest (.cons (hprops _) (.cons (hmods _) .nil))
  | list =>
    obtain ⟨body, hbody, hread⟩ := readArray_bracketed (opensItem_chars (depth + 1)) depth [mods, props]
    rw [List.map_cons, List.map_cons, List.map_nil] at hbody
    rw [ElementRow.chars, hbody]
    change (readArray _ _ (body ++ rest) >>= _) = _
    rw [hread (f := fun (parts : List Attributes) rows => parts ++ [rows.attributes])]
    · rfl
    · intro parts rows rest
      obtain ⟨-, -, hrows⟩ := readAttributes_chars (depth + 1) rows
      rw [hrows]
      rfl

end Elements

/-- A file is read as the registry in which the last entries stay. -/
theorem Document.parse_text (d : Document) : Registry.parse d.text = .ok d.registry := by
  obtain ⟨body, hbody, hread⟩ := readObject_objectChars
    (entries_insertAll (fun e rest => readElement_chars 1 rest e) ∅ d) 0
  have helements : readElements (objectChars 0 (d.map fun e => (e.1, e.2.chars 1))) =
      .ok (d.registry, []) := by
    rw [hbody]
    change readObject _ ∅ body = _
    rw [← body.append_nil, hread]
    rfl
  rw [text, Registry.parse, String.toList_ofList, helements]
  rfl

-- An element as the list of its maps, with a value given twice.
example : Document.text [("a", ⟨.list, [], [("t", ["x\n", "x\n"])]⟩)] =
    "\x7b\n  \"a\": [\n    \x7b\x7d,\n    \x7b\n      \"t\": [\n" ++
      "        \"x\\n\",\n        \"x\\n\"\n      ]\n    \x7d\n  ]\n\x7d" := by
  decide +kernel

end ScopedStyles.Scope
