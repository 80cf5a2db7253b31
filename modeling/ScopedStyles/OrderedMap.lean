namespace ScopedStyles

/-- Entries in strictly increasing order of their keys. Texts are ordered by code points. -/
structure OrderedMap (β : Type) where
  entries : List (String × β)
  sorted : entries.Pairwise (fun a b => a.1 < b.1)
  deriving DecidableEq

namespace OrderedMap

variable {β : Type}

def lookup (k : String) : List (String × β) → Option β
  | [] => none
  | (k', v) :: rest => if k = k' then some v else lookup k rest

/-- Sets the value under `k` to what `f` makes of the present one, at its place in key order. -/
def alterEntries (k : String) (f : Option β → β) : List (String × β) → List (String × β)
  | [] => [(k, f none)]
  | (k', v) :: rest =>
    if k = k' then (k, f (some v)) :: rest
    else if k < k' then (k, f none) :: (k', v) :: rest
    else (k', v) :: alterEntries k f rest

theorem mem_alterEntries {k : String} {f : Option β → β} {a : String × β}
    {es : List (String × β)} (h : a ∈ alterEntries k f es) : a.1 = k ∨ a ∈ es := by
  induction es with
  | nil => simp_all [alterEntries]
  | cons e rest ih => grind [alterEntries]

theorem pairwise_alterEntries (k : String) (f : Option β → β) {es : List (String × β)}
    (h : es.Pairwise (fun a b => a.1 < b.1)) :
    (alterEntries k f es).Pairwise (fun a b => a.1 < b.1) := by
  induction es with
  | nil => simp [alterEntries]
  | cons e rest ih =>
    obtain ⟨k', v⟩ := e
    obtain ⟨hhead, hrest⟩ := List.pairwise_cons.1 h
    rw [alterEntries]
    split
    · next hk => exact List.pairwise_cons.2 ⟨fun a ha => hk ▸ hhead a ha, hrest⟩
    · next hk =>
      split
      · next hlt =>
        refine List.pairwise_cons.2 ⟨fun a ha => ?_, h⟩
        rcases List.mem_cons.1 ha with rfl | ha
        · exact hlt
        · exact String.lt_trans hlt (hhead a ha)
      · next hlt =>
        refine List.pairwise_cons.2 ⟨fun a ha => ?_, ih hrest⟩
        rcases mem_alterEntries ha with ha | ha
        · have hle : k' ≤ k := String.not_lt.1 hlt
          simp only [ha]
          exact Decidable.byContradiction fun hn => hk (String.le_antisymm (String.not_lt.1 hn) hle)
        · exact hhead a ha

def empty : OrderedMap β := ⟨[], List.Pairwise.nil⟩

instance : EmptyCollection (OrderedMap β) := ⟨empty⟩

instance : Inhabited (OrderedMap β) := ⟨empty⟩

def get? (m : OrderedMap β) (k : String) : Option β :=
  lookup k m.entries

def contains (m : OrderedMap β) (k : String) : Bool :=
  (m.get? k).isSome

def keys (m : OrderedMap β) : List String :=
  m.entries.map (·.1)

def size (m : OrderedMap β) : Nat :=
  m.entries.length

def isEmpty (m : OrderedMap β) : Bool :=
  m.entries.isEmpty

def alter (m : OrderedMap β) (k : String) (f : Option β → β) : OrderedMap β :=
  ⟨alterEntries k f m.entries, pairwise_alterEntries k f m.sorted⟩

def insert (m : OrderedMap β) (k : String) (v : β) : OrderedMap β :=
  m.alter k fun _ => v

/-- Adds entries from the left, so the last value given for a key stays. -/
def insertAll (m : OrderedMap β) (es : List (String × β)) : OrderedMap β :=
  es.foldl (fun m e => m.insert e.1 e.2) m

def ofList (es : List (String × β)) : OrderedMap β :=
  (∅ : OrderedMap β).insertAll es

def override (m other : OrderedMap β) : OrderedMap β :=
  m.insertAll other.entries

theorem lookup_alterEntries (k k' : String) (f : Option β → β) (es : List (String × β))
    (h : es.Pairwise (fun a b => a.1 < b.1)) :
    lookup k' (alterEntries k f es) =
      if k' = k then some (f (lookup k es)) else lookup k' es := by
  induction es with
  | nil => simp [alterEntries, lookup]
  | cons e rest ih =>
    obtain ⟨l, v⟩ := e
    obtain ⟨hhead, hrest⟩ := List.pairwise_cons.1 h
    have habsent : k < l → lookup k rest = none := by
      intro hlt
      clear ih h hrest
      induction rest with
      | nil => rfl
      | cons e' rest ih' =>
        have hne : k ≠ e'.1 := fun heq =>
          String.lt_irrefl k (String.lt_trans hlt (heq ▸ hhead e' List.mem_cons_self))
        rw [lookup, if_neg hne]
        exact ih' fun a ha => hhead a (List.mem_cons_of_mem _ ha)
    grind [alterEntries, lookup]

theorem get?_alter (m : OrderedMap β) (k k' : String) (f : Option β → β) :
    (m.alter k f).get? k' = if k' = k then some (f (m.get? k)) else m.get? k' :=
  lookup_alterEntries k k' f m.entries m.sorted

theorem get?_insert (m : OrderedMap β) (k k' : String) (v : β) :
    (m.insert k v).get? k' = if k' = k then some v else m.get? k' :=
  get?_alter m k k' _

@[simp]
theorem get?_empty (k : String) : (∅ : OrderedMap β).get? k = none := rfl

theorem lookup_eq_none_of_lt {k : String} {es : List (String × β)} (h : ∀ a ∈ es, k < a.1) :
    lookup k es = none := by
  induction es with
  | nil => rfl
  | cons e rest ih =>
    have hne : k ≠ e.1 := fun heq =>
      String.lt_irrefl k (heq ▸ h e List.mem_cons_self : k < k)
    rw [lookup, if_neg hne]
    exact ih fun a ha => h a (List.mem_cons_of_mem _ ha)

theorem entries_eq_of_lookup {es fs : List (String × β)}
    (hes : es.Pairwise (fun a b => a.1 < b.1)) (hfs : fs.Pairwise (fun a b => a.1 < b.1))
    (h : ∀ k, lookup k es = lookup k fs) : es = fs := by
  induction es generalizing fs with
  | nil =>
    cases fs with
    | nil => rfl
    | cons f fs => simpa [lookup] using h f.1
  | cons e es ih =>
    cases fs with
    | nil => simpa [lookup] using h e.1
    | cons f fs =>
      obtain ⟨he, hes⟩ := List.pairwise_cons.1 hes
      obtain ⟨hf, hfs⟩ := List.pairwise_cons.1 hfs
      have hkey : e.1 = f.1 := by
        refine String.le_antisymm (String.not_lt.1 fun hlt => ?_) (String.not_lt.1 fun hlt => ?_)
        · have hnone : lookup f.1 (e :: es) = none := lookup_eq_none_of_lt fun a ha => by
            rcases List.mem_cons.1 ha with rfl | ha
            · exact hlt
            · exact String.lt_trans hlt (he a ha)
          have hkeys := h f.1
          rw [hnone] at hkeys
          simp [lookup] at hkeys
        · have hnone : lookup e.1 (f :: fs) = none := lookup_eq_none_of_lt fun a ha => by
            rcases List.mem_cons.1 ha with rfl | ha
            · exact hlt
            · exact String.lt_trans hlt (hf a ha)
          have hkeys := h e.1
          rw [hnone] at hkeys
          simp [lookup] at hkeys
      have hval : e.2 = f.2 := by
        have := h e.1
        simpa [lookup, hkey] using this
      have hrest : es = fs := by
        refine ih hes hfs fun k => ?_
        by_cases hk : k = e.1
        · rw [hk, lookup_eq_none_of_lt he, hkey, lookup_eq_none_of_lt hf]
        · simpa [lookup, hk, hkey ▸ hk] using h k
      rw [hrest, Prod.ext hkey hval]

/-- Maps are equal when all their lookups are. -/
theorem ext_get? {m n : OrderedMap β} (h : ∀ k, m.get? k = n.get? k) : m = n := by
  obtain ⟨es, hes⟩ := m
  obtain ⟨fs, hfs⟩ := n
  have : es = fs := entries_eq_of_lookup hes hfs h
  subst this
  rfl

end OrderedMap

abbrev TextSet := OrderedMap Unit

namespace TextSet

def insert (s : TextSet) (x : String) : TextSet :=
  OrderedMap.insert s x ()

def ofList (xs : List String) : TextSet :=
  xs.foldl insert ∅

def toList (s : TextSet) : List String :=
  s.keys

theorem contains_insert (s : TextSet) (x y : String) :
    (s.insert x).contains y = (y == x || s.contains y) := by
  by_cases h : y = x <;> simp [OrderedMap.contains, insert, OrderedMap.get?_insert, h]

end TextSet

end ScopedStyles
