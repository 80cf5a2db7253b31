import ScopedStyles.Proofs.Resolver.Prefixes

namespace ScopedStyles.Scope

open Selector

/-- The label of what holds the selector that a node stands in, what stands in front of the node in
this selector, and the label of the node. -/
structure Place where
  holder : Option Label
  front : List Tree
  label : Label

mutual

def nodePlaces (holder parent : Option Label) (front : List Tree) : Tree → List Place
  | .node l ts => ⟨holder, front, l⟩ :: listPlaces parent (some l) [] ts

def listPlaces (holder parent : Option Label) (front : List Tree) : List Tree → List Place
  | [] => []
  | t :: ts => nodePlaces holder parent front t ++ listPlaces holder parent (front ++ [t]) ts

end

def places : Tree → List Place
  | .node l ts => listPlaces none (some l) [] ts

def namesElement (l : Label) : Bool :=
  l.kind == .tag || l.kind == .idName

/-- The element that owns what stands behind these nodes: the value of the nearest tag or id with no
combinator in between. -/
def ownerOf (front : List Label) : String :=
  (((front.reverse.takeWhile fun l => !l.isCombinator).find? namesElement).map Label.value).getD
    "__common__"

def endsInBar (front : List Label) : Bool :=
  front.getLast?.any fun l => decide (IsBar l)

section Opened

variable (c : Config) (P : Label → Bool)

/-- The label is that of an escape, and its only argument directly holds a node that satisfies `P`. -/
def isOpened (l : Label) (arguments : List Tree) : Bool :=
  isEscape c l && arguments.length == 1 &&
    arguments.any fun s => s.children.any fun t => P t.label

mutual

/-- What stands in the place of a node when the escapes are opened that directly hold a node that
satisfies `P`. -/
def opened : Tree → List Label
  | .node l ts => if isOpened c P l ts then openedContents ts else [l]

def openedContents : List Tree → List Label
  | [] => []
  | .node _ us :: ts => openedAll us ++ openedContents ts

def openedAll : List Tree → List Label
  | [] => []
  | t :: ts => opened t ++ openedAll ts

end

end Opened

namespace Place

variable (c : Config) (p : Place)

def isExposed : Bool :=
  (p.holder.filter Label.isPseudo).all fun l =>
    l.value != (match c.mode with | .locally => ":global" | .globally => ":local") &&
      l.value != ":dir" && !":nth-".toList.isPrefixOf l.value.toList

def isScopedAttribute : Bool :=
  p.label.isAttribute && p.isExposed c && p.label.ns.all (· == .named c.scope)

def attribute? (owner : String) : Option Sighting :=
  if p.isScopedAttribute c then
    let value := unquotedValue p.label
    some <|
      if p.label.ns.isSome then .attribute owner .mod (c.scope ++ "--" ++ p.label.value) value
      else .attribute owner .prop p.label.value value
  else none

def element? (barred : Bool) : Option Sighting :=
  if p.label.isTag && p.isExposed c && (barred || p.label.ns.all (· == .named c.scope)) then
    some <| .element <|
      if barred || p.label.ns.isSome then c.scope ++ "--" ++ p.label.value else p.label.value
  else none

def owner : String :=
  ownerOf (p.front.map Tree.label)

def isBarred : Bool :=
  endsInBar (p.front.map Tree.label)

/-- The owner that is found when the escapes in front that directly hold an attribute are open. -/
def reachedOwner : String :=
  ownerOf (openedAll c Label.isAttribute p.front)

/-- Whether a bare bar stands directly in front when the escapes are open that directly hold an
attribute or a tag. -/
def reachesBar : Bool :=
  endsInBar (openedAll c isScopable p.front)

end Place

theorem Place.isExposed_iff {c : Config} {p : Place} : p.isExposed c = true ↔
    ∀ l, p.holder = some l → l.isPseudo = true →
      l.value ≠ c.mode.escape ∧ isOpaquePseudo l.value = false := by
  rw [isExposed]
  cases p.holder with
  | none => exact iff_of_true rfl nofun
  | some l =>
    rw [Option.filter_some]
    simp only [Option.some.injEq, forall_eq']
    cases l.isPseudo with
    | false => exact iff_of_true rfl nofun
    | true => cases c.mode <;> simp [Mode.escape, isOpaquePseudo, and_assoc]

/-- What the attributes tell with these owners, and then the tags with these bars. -/
def sightings (c : Config) (owner : Place → String) (barred : Place → Bool) (t : Tree) :
    List Sighting :=
  (places t).filterMap (fun p => p.attribute? c (owner p)) ++
    (places t).filterMap fun p => p.element? c (barred p)

variable {c : Config} {P : Label → Bool} {Q : Label → Prop} {t : Tree} {ts : List Tree}

def Classed (P : Label → Bool) (l l' : Label) : Prop :=
  l' = l ∨ P l = true ∧ l'.kind = .className

theorem Classed.imp {P P' : Label → Bool} {l l' : Label} (hP : ∀ l, P l = true → P' l = true)
    (h : Classed P l l') : Classed P' l l' := by
  rcases h with rfl | ⟨hl, hclass⟩
  · exact .inl rfl
  · exact .inr ⟨hP l hl, hclass⟩

theorem ownerOf_classed {ls ls' : List Label} (h : List.Forall₂ (Classed Label.isAttribute) ls ls') :
    ownerOf ls' = ownerOf ls := by
  have hfind : ∀ {ls ls'}, List.Forall₂ (Classed Label.isAttribute) ls ls' →
      (ls'.takeWhile fun l => !l.isCombinator).find? namesElement =
        (ls.takeWhile fun l => !l.isCombinator).find? namesElement := by
    intro ls ls' h
    induction h with
    | nil => rfl
    | @cons l l' ls ls' hl _ ih =>
      rcases hl with rfl | ⟨hattribute, hclass⟩
      · rw [List.takeWhile_cons, List.takeWhile_cons]
        split
        · rw [List.find?_cons, List.find?_cons, ih]
        · rfl
      · have hskipped : namesElement l = false ∧ l.isCombinator = false := by
          rw [Label.isAttribute] at hattribute
          rw [Label.isCombinator, namesElement]
          split at hattribute
          · next hkind =>
            rw [hkind]
            exact ⟨rfl, rfl⟩
          · cases hattribute
        have hskipped' : namesElement l' = false ∧ l'.isCombinator = false := by
          rw [Label.isCombinator, namesElement, hclass]
          exact ⟨rfl, rfl⟩
        rw [List.takeWhile_cons_of_pos (by rw [hskipped'.2]; rfl),
          List.takeWhile_cons_of_pos (by rw [hskipped.2]; rfl), List.find?_cons, List.find?_cons,
          hskipped.1, hskipped'.1]
        exact ih
  rw [ownerOf, ownerOf, hfind (List.forall₂_reverse_iff.2 h)]

theorem endsInBar_classed {ls ls' : List Label} (h : List.Forall₂ (Classed isScopable) ls ls') :
    endsInBar ls' = endsInBar ls := by
  have hreverse := List.forall₂_reverse_iff.2 h
  rw [endsInBar, endsInBar, List.getLast?_eq_head?_reverse, List.getLast?_eq_head?_reverse]
  generalize ls.reverse = xs, ls'.reverse = xs' at hreverse
  cases hreverse with
  | nil => rfl
  | @cons l l' _ _ hl _ =>
    rw [List.head?_cons, List.head?_cons, Option.any_some, Option.any_some]
    rcases hl with rfl | ⟨hscopable, hclass⟩
    · rfl
    · have hbar : ¬ IsBar l := by
        rintro ⟨hkind, -⟩
        rw [isScopable, Label.isAttribute, Label.isTag, hkind] at hscopable
        cases hscopable
      have hbar' : ¬ IsBar l' := by
        rintro ⟨hkind, -⟩
        rw [hclass] at hkind
        cases hkind
      rw [decide_eq_false hbar, decide_eq_false hbar']

theorem openedAll_of_forall (h : ∀ t ∈ ts, isOpened c P t.label t.children = false) :
    openedAll c P ts = ts.map Tree.label := by
  induction ts with
  | nil => rfl
  | cons t ts ih =>
    obtain ⟨ht, hts⟩ := List.forall_mem_cons.1 h
    rw [openedAll, ih hts, List.map_cons]
    cases t with
    | node l us =>
      rw [Tree.label, Tree.children] at ht
      rw [opened, ht, Tree.label]
      rfl

theorem mem_listPlaces {holder parent : Option Label} {front : List Tree} {p : Place} :
    p ∈ listPlaces holder parent front ts ↔
      ∃ before t after, ts = before ++ t :: after ∧
        p ∈ nodePlaces holder parent (front ++ before) t := by
  induction ts generalizing front with
  | nil => simp [listPlaces]
  | cons u ts ih =>
    rw [listPlaces, List.mem_append, ih]
    constructor
    · rintro (hp | ⟨before, t, after, rfl, hp⟩)
      · exact ⟨[], u, ts, rfl, (List.append_nil front).symm ▸ hp⟩
      · exact ⟨u :: before, t, after, rfl, (List.append_cons front u before).symm ▸ hp⟩
    · rintro ⟨before, t, after, hts, hp⟩
      cases before with
      | nil =>
        obtain ⟨rfl, rfl⟩ := List.cons.inj hts
        exact .inl ((List.append_nil front) ▸ hp)
      | cons u' before =>
        obtain ⟨rfl, rfl⟩ := List.cons.inj hts
        exact .inr ⟨before, t, after, rfl, (List.append_cons front u before) ▸ hp⟩

theorem label_of_mem_places (h : t.All Q) {p : Place} (hp : p ∈ places t) : Q p.label := by
  have hnode : ∀ t : Tree, ∀ holder parent front, t.All Q →
      ∀ p ∈ nodePlaces holder parent front t, Q p.label := by
    intro t
    induction t using Tree.induct with
    | node l ts ih =>
      intro holder parent front hall p hp
      rw [nodePlaces, List.mem_cons] at hp
      rcases hp with rfl | hp
      · exact hall.label
      · obtain ⟨before, u, after, rfl, hu'⟩ := mem_listPlaces.1 hp
        have hu : u ∈ before ++ u :: after := List.mem_append_cons_self
        exact ih u hu _ _ _ (hall.children u hu) p hu'
  cases t with
  | node l ts =>
    obtain ⟨before, u, after, rfl, hu⟩ := mem_listPlaces.1 hp
    exact hnode u _ _ _ (h.children u List.mem_append_cons_self) p hu

theorem place_mem_listPlaces {holder parent : Option Label} (before : List Tree) (t : Tree)
    (after : List Tree) :
    ⟨holder, before, t.label⟩ ∈ listPlaces holder parent [] (before ++ t :: after) := by
  apply mem_listPlaces.2
  refine ⟨before, t, after, rfl, ?_⟩
  cases t with
  | node l ts =>
    rw [nodePlaces, List.nil_append]
    exact List.mem_cons_self

theorem front_mem_children (t : Tree) : ∀ {holder parent : Option Label} {p : Place},
    p ∈ listPlaces holder parent [] t.children → ∀ u ∈ p.front,
      ∃ p' ∈ listPlaces holder parent [] t.children, p'.holder = p.holder ∧ p'.label = u.label := by
  induction t using Tree.induct with
  | node l ts ih =>
    intro holder parent p hp u hu
    rw [Tree.children] at hp ⊢
    obtain ⟨before, t, after, rfl, hplace⟩ := mem_listPlaces.1 hp
    have ht : t ∈ before ++ t :: after := List.mem_append_cons_self
    cases t with
    | node l us =>
      rw [nodePlaces, List.mem_cons, List.nil_append] at hplace
      rcases hplace with rfl | hplace
      · obtain ⟨front, later, rfl⟩ := List.append_of_mem hu
        refine ⟨⟨holder, front, u.label⟩, ?_, rfl, rfl⟩
        rw [List.append_assoc, List.cons_append]
        exact place_mem_listPlaces front u _
      · obtain ⟨p', hp', hsame⟩ := ih (.node l us) ht hplace u hu
        refine ⟨p', mem_listPlaces.2 ⟨before, .node l us, after, rfl, ?_⟩, hsame⟩
        rw [nodePlaces]
        exact List.mem_cons_of_mem _ hp'

theorem front_mem_places {p : Place} (hp : p ∈ places t) {u : Tree} (hu : u ∈ p.front) :
    ∃ p' ∈ places t, p'.holder = p.holder ∧ p'.label = u.label := by
  cases t with
  | node l ts => exact front_mem_children (.node l ts) hp u hu

end ScopedStyles.Scope
