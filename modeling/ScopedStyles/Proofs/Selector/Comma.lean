import ScopedStyles.Proofs.Selector.Moves
import ScopedStyles.Proofs.Selector.Printed

namespace ScopedStyles.Selector

variable {r k : List Char}

theorem Follows.cons {c : Char} (h : r.head? = k.head?) : Follows (c :: r) (c :: k) where
  nil := nofun
  ends := fun hends d hd => hends d hd
  bar := by
    intro hbar
    by_cases hc : c = '|'
    · subst hc
      rw [afterBar?_bar_eq_none_iff] at hbar ⊢
      rwa [← h]
    · exact afterBar?_of_head fun hhead => hc (Option.some.inj hhead)
  parenthesis := fun hne => hne
  tight := by
    intro htight
    rw [tight_cons_iff] at htight ⊢
    rwa [← h]
  closing := fun _ hne => hne

theorem follows_bracket (z r k : List Char) : Follows (z ++ ']' :: r) (z ++ ']' :: k) := by
  cases z with
  | nil =>
    exact ⟨nofun, fun hends d hd => hends d hd, fun _ => rfl, fun hne => hne,
      fun htight => htight.swap (by decide), fun _ hne => hne⟩
  | cons c z =>
    apply Follows.cons
    cases z with
    | nil => rfl
    | cons d z => rfl

theorem AttributeNameAt.carry {ns : Option Namespace} {name : String} {n : List Char}
    (h : AttributeNameAt ns name n r) (hk : Follows r k) : AttributeNameAt ns name n k := by
  cases h with
  | any hname => exact .any (hname.follows hk)
  | barred hname => exact .barred (hname.follows hk)
  | prefixed hfirst hname =>
    exact .prefixed (hfirst.again_cons (List.cons_ne_nil _ _) (by decide)) (hname.follows hk)
  | plain hname hbar => exact .plain (hname.follows hk) (hk.bar hbar)

theorem ValueAt.carry {value : String} {v : List Char} (h : ValueAt value v r)
    (hk : Follows r k) : ValueAt value v k := by
  cases h with
  | quoted hquote hinner => exact .quoted hquote hinner
  | name hname => exact .name (hname.follows hk)

theorem FlagAt.carry {flag : Option String} {f : List Char} (h : FlagAt flag f r)
    (hk : Follows r k) : FlagAt flag f k := by
  cases h with
  | absent hends => exact .absent (hk.ends hends)
  | present hname => exact .present (hname.follows hk)

theorem MatchAt.carry {m : Match} {o : List Char} (h : MatchAt m o (']' :: r)) (k : List Char) :
    MatchAt m o (']' :: k) := by
  cases h with
  | presence => exact .presence rfl
  | @full operator value flag v f ts₁ ts₂ ts₃ _ hoperator hts₁ htight₁ hvalue hts₂ htight₂ hflag hts₃
      htight₃ =>
    have h₁ := follows_bracket (v ++ (ts₂ ++ (f ++ ts₃))) r k
    have h₂ := follows_bracket (ts₂ ++ (f ++ ts₃)) r k
    have h₃ := follows_bracket (f ++ ts₃) r k
    have h₄ := follows_bracket ts₃ r k
    simp only [List.append_assoc] at h₁ h₂ h₃
    exact .full hoperator hts₁ (h₁.tight htight₁) (hvalue.carry h₂) hts₂ (h₃.tight htight₂)
      (hflag.carry h₄) hts₃ (htight₃.swap (by decide))

theorem AttributeAt.carry {t : Tree} {x : List Char} (h : AttributeAt t x r) (k : List Char) :
    AttributeAt t x k := by
  cases h with
  | @intro ns name m n o ts₁ ts₂ _ hts₁ htight₁ hname hts₂ htight₂ hmatch =>
    have h₁ := follows_bracket (n ++ (ts₂ ++ o)) r k
    have h₂ := follows_bracket (ts₂ ++ o) r k
    have h₃ := follows_bracket o r k
    simp only [List.append_assoc] at h₁ h₂
    exact .intro hts₁ (h₁.tight htight₁) (hname.carry h₂) hts₂ (h₃.tight htight₂) (hmatch.carry k)

def IsStop (d : Char) : Prop :=
  d = ',' ∨ d = ')'

section Stops

variable {d : Char}

theorem IsStop.ends (hd : IsStop d) : isNameChar d = false ∧ d ≠ '|' ∧ d ≠ '(' := by
  rcases hd with rfl | rfl
  · decide
  · decide

theorem IsStop.tight (hd : IsStop d) (k : List Char) : Tight (d :: k) := by
  rcases hd with rfl | rfl
  · exact tight_cons (by decide) (by decide) k
  · exact tight_cons (by decide) (by decide) k

theorem Tight.stop (h : Tight r) (hd : IsStop d) (k : List Char) : Tight (r ++ d :: k) := by
  cases r with
  | nil => exact hd.tight k
  | cons c r =>
    obtain ⟨hc, hcomment⟩ := tight_cons_iff.1 h
    refine tight_cons_iff.2 ⟨hc, ?_⟩
    rintro ⟨hslash, hhead⟩
    cases r with
    | nil =>
      cases hhead
      rcases hd with hd | hd <;> cases hd
    | cons e r => exact hcomment ⟨hslash, hhead⟩

theorem head?_stop {c : Char} (h : r.head? ≠ some c) (hc : c ≠ d) (k : List Char) :
    (r ++ d :: k).head? ≠ some c := by
  cases r with
  | nil => exact fun heq => hc (Option.some.inj heq).symm
  | cons e r => exact h

theorem afterBar?_stop (h : afterBar? r = none) (hd : IsStop d) (k : List Char) :
    afterBar? (r ++ d :: k) = none := by
  cases r with
  | nil => exact afterBar?_of_head fun hhead => hd.ends.2.1 (Option.some.inj hhead)
  | cons c r =>
    by_cases hc : c = '|'
    · subst hc
      rw [List.cons_append, afterBar?_bar_eq_none_iff]
      rw [afterBar?_bar_eq_none_iff] at h
      cases r with
      | nil => exact absurd h (by decide)
      | cons e r => exact h
    · exact afterBar?_of_head fun hhead => hc (Option.some.inj hhead)

theorem NameBefore.stop {n : List Char} (h : NameBefore n r) (hend : (n ++ r).getLast? ≠ some '\\')
    (hd : IsStop d) (k : List Char) : NameBefore n (r ++ d :: k) := by
  apply h.again
  · intro c hc
    cases r with
    | nil =>
      cases hc
      exact hd.ends.1
    | cons e r => exact h.ends c hc
  · rintro rfl
    rw [List.append_nil] at hend
    exact .inr hend

theorem getLast?_ne_of_suffix {c : Char} {x y : List Char} (h : x <:+ y)
    (hy : y.getLast? ≠ some c) : x.getLast? ≠ some c := by
  obtain ⟨z, rfl⟩ := h
  intro hx
  apply hy
  rw [List.getLast?_append, hx, Option.some_or]

theorem ElementAt.stop {ns : Namespace} {t : Tree} {x : List Char} (h : ElementAt ns t x r)
    (hend : (x ++ r).getLast? ≠ some '\\') (hd : IsStop d) (k : List Char) :
    ElementAt ns t x (r ++ d :: k) := by
  cases h with
  | universal => exact .universal _
  | tag hname => exact .tag (hname.stop hend hd k)

/-- A component is read alike in front of a stop. Behind an opening parenthesis the stop would be read
itself. -/
theorem ComponentAt.stop {comp : Component} {x : List Char} (h : ComponentAt comp x r)
    (hend : (x ++ r).getLast? ≠ some '\\') (hopen : ∀ name, comp = .opening name → r ≠ [])
    (hd : IsStop d) (k : List Char) : ComponentAt comp x (r ++ d :: k) := by
  have hlater : ∀ front {y : List Char}, x = front ++ y → (y ++ r).getLast? ≠ some '\\' := by
    rintro front y rfl
    rw [List.append_assoc] at hend
    exact getLast?_ne_of_suffix (List.suffix_append _ _) hend
  cases h with
  | combinator hc => exact .combinator hc
  | className hname => exact .className (hname.stop (hlater ['.'] rfl) hd k)
  | idName hname => exact .idName (hname.stop (hlater ['#'] rfl) hd k)
  | bracket ht => exact .bracket (ht.carry _)
  | pseudo hname hr =>
    apply ComponentAt.pseudo _ (head?_stop hr hd.ends.2.2.symm k)
    cases hname with
    | single hname => exact .single (hname.stop (hlater [':'] rfl) hd k)
    | double hname => exact .double (hname.stop (hlater [':', ':'] rfl) hd k)
  | @emptyFunctional name x ts _ hts hname =>
    exact .emptyFunctional hts (hname.again_cons (List.cons_ne_nil _ _) (by decide))
  | opening hts hname htight hr =>
    refine .opening hts (hname.again_cons (List.cons_ne_nil _ _) (by decide)) (htight.stop hd k) ?_
    obtain ⟨c, r, rfl⟩ := List.exists_cons_of_ne_nil (hopen _ rfl)
    exact hr
  | nesting => exact .nesting
  | string hquote hinner => exact .string hquote hinner
  | universal hbar => exact .universal (afterBar?_stop hbar hd k)
  | anyElement ht => exact .anyElement (ht.stop (hlater ['*', '|'] rfl) hd k)
  | tag hname hbar => exact .tag (hname.stop hend hd k) (afterBar?_stop hbar hd k)
  | @element first t x _ hfirst ht =>
    have hx : first.toList ++ '|' :: x = (first.toList ++ ['|']) ++ x := by simp
    exact .element (hfirst.again_cons (List.cons_ne_nil _ _) (by decide)) (ht.stop (hlater _ hx) hd k)

end Stops

variable {s s' : Stack} {spaced : Bool} {cs tokens rest : List Char} {selectors : List Tree}
  {bottom : List (String × Frame)} {d : Char}

theorem Reads.nodes_ne_nil (h : Reads s [] selectors) : s.frame.nodes ≠ [] := by
  rintro hnil
  cases h with
  | done htrivia hmove =>
    cases hmove with
    | done hnodes =>
      rw [hnil] at hnodes
      cases hnodes
  | more htrivia hmove =>
    cases htrivia.symm.trans tight_nil
    cases hmove

def Stack.within (s : Stack) (bottom : List (String × Frame)) : Stack :=
  ⟨s.frame, s.outer ++ bottom⟩

theorem Move.before_stop (h : Move s spaced tokens (.more s' rest))
    (hend : tokens.getLast? ≠ some '\\') (hrest : Reads s' rest selectors) (hd : IsStop d)
    (k : List Char) (bottom : List (String × Frame)) :
    Move (s.within bottom) spaced (tokens ++ d :: k) (.more (s'.within bottom) (rest ++ d :: k)) := by
  cases h with
  | comma hnodes => exact .comma hnodes
  | @close name frame outer rest hnodes houter =>
    have houter' : (s.within bottom).outer = (name, frame) :: (outer ++ bottom) := by
      rw [Stack.within, houter]
      rfl
    exact .close hnodes houter'
  | @component c tail r comp hcomma hclose hread =>
    obtain ⟨x, hx, hcomp⟩ := readComponent_sound hread
    rw [hx] at hend
    have hopen : ∀ name, comp = .opening name → rest ≠ [] := by
      rintro name rfl rfl
      exact hrest.nodes_ne_nil rfl
    have happend : c :: (tail ++ d :: k) = x ++ (rest ++ d :: k) := by
      rw [← List.append_assoc, ← hx]
      rfl
    have hmove : Move (s.within bottom) spaced (c :: (tail ++ d :: k)) _ :=
      .component hcomma hclose ((hcomp.stop hend hopen hd k).read happend)
    cases comp with
    | node t => exact hmove
    | opening name => exact hmove

/-- The rest of a list is read alike from stacks and texts with the same first step. -/
theorem readList_congr {cs' : List Char} (h : step s cs = step s' cs') :
    readList s cs = readList s' cs' := by
  cases hstep : step s cs with
  | error f => rw [readList_of_error hstep, readList_of_error (h ▸ hstep)]
  | ok p =>
    cases p with
    | done result => rw [readList_of_done hstep, readList_of_done (h ▸ hstep)]
    | more t rest => exact (readList_of_more hstep).trans (readList_of_more (h ▸ hstep)).symm

theorem readList_stop {ts : List Char} (hts : Trivia ts) (hd : IsStop d) (s : Stack) (k : List Char) :
    readList s (ts ++ d :: k) = readList s (d :: k) := by
  apply readList_congr
  rw [step, step, hts, hd.tight k]
  rcases hd with rfl | rfl
  · rfl
  · rfl

/-- In front of a stop a whole list is read as at the end of the text, also inside of argument lists. -/
theorem Reads.before_stop (h : Reads s cs selectors) (hend : cs.getLast? ≠ some '\\') (hd : IsStop d)
    (k : List Char) (bottom : List (String × Frame)) :
    ∃ frame : Frame, frame.close = selectors ∧ frame.nodes.isEmpty = false ∧
      readList (s.within bottom) (cs ++ d :: k) = readList ⟨frame, bottom⟩ (d :: k) := by
  induction h with
  | @done s cs tokens selectors htrivia hmove =>
    obtain ⟨ts, rfl, hts, -⟩ := skipTrivia_eq_ok_iff.1 htrivia
    cases hmove with
    | done hnodes houter =>
      refine ⟨s.frame, rfl, hnodes, ?_⟩
      rw [List.append_nil, Stack.within, houter]
      exact readList_stop hts hd _ k
  | @more s s' cs tokens rest selectors htrivia hmove hreads ih =>
    have hrest : rest <:+ tokens := by
      have hwithin := stepToken_within s (tokens.length != cs.length) tokens
      rw [stepToken_eq_ok_iff.2 hmove] at hwithin
      exact List.IsSuffix.trans hwithin (List.tail_suffix tokens)
    obtain ⟨ts, rfl, hts, htight⟩ := skipTrivia_eq_ok_iff.1 htrivia
    -- a backslash at the end would take the stop along
    have htokens := getLast?_ne_of_suffix (List.suffix_append ts tokens) hend
    obtain ⟨frame, hclose, hnodes, hread⟩ := ih (getLast?_ne_of_suffix hrest htokens)
    refine ⟨frame, hclose, hnodes, ?_⟩
    rw [← hread]
    apply readList_of_more
    refine step_eq_ok_iff.2 ⟨tokens ++ d :: k, ?_, ?_⟩
    · rw [List.append_assoc]
      exact (hts _).trans (htight.stop hd k)
    · have hspaced : ((tokens ++ d :: k).length != (ts ++ tokens ++ d :: k).length) =
          (tokens.length != (ts ++ tokens).length) := by
        have hlength : (ts ++ tokens ++ d :: k).length = (ts ++ tokens).length + (d :: k).length :=
          List.length_append
        rw [List.length_append, hlength, Bool.eq_iff_iff, bne_iff_ne, bne_iff_ne, Ne,
          Nat.add_right_cancel_iff]
      rw [hspaced]
      exact hmove.before_stop htokens hreads hd k bottom

theorem Reads.before_comma (h : Reads s cs selectors) (hend : cs.getLast? ≠ some '\\')
    (k : List Char) :
    ∃ frame : Frame, frame.close = selectors ∧
      readList s (cs ++ ',' :: k) = readList ⟨frame.next, []⟩ k := by
  obtain ⟨frame, hclose, hnodes, hread⟩ := h.before_stop hend (.inl rfl) k []
  rw [Stack.within, List.append_nil] at hread
  refine ⟨frame, hclose, hread.trans (readList_of_more ?_)⟩
  have htight : Tight (',' :: k) := IsStop.tight (.inl rfl) k
  exact step_eq_ok_iff.2 ⟨',' :: k, htight, .comma hnodes⟩

/-- The frame with selectors that were closed before its own, newest first. -/
def Frame.onto (f : Frame) (closed : List Tree) : Frame :=
  { f with selectors := f.selectors ++ closed }

/-- The second stack holds further closed selectors in its outermost list. -/
inductive Onto (closed : List Tree) : Stack → Stack → Prop where
  | bottom (f : Frame) : Onto closed ⟨f, []⟩ ⟨f.onto closed, []⟩
  | inner {f f' : Frame} {outer outer' : List (String × Frame)} (g : Frame) (name : String)
      (h : Onto closed ⟨f, outer⟩ ⟨f', outer'⟩) :
      Onto closed ⟨g, (name, f) :: outer⟩ ⟨g, (name, f') :: outer'⟩

variable {closed : List Tree}

theorem Frame.separate_onto (f : Frame) (c : Char) :
    (f.onto closed).separate spaced c = (f.separate spaced c).onto closed := by
  obtain ⟨selectors, nodes⟩ := f
  cases nodes with
  | nil => rfl
  | cons last nodes =>
    simp only [separate, onto]
    split
    · rfl
    · rfl

namespace Onto

theorem nodes (h : Onto closed s s') : s'.frame.nodes = s.frame.nodes := by
  cases h with
  | bottom f => rfl
  | inner g name h => rfl

theorem outer_isEmpty (h : Onto closed s s') : s'.outer.isEmpty = s.outer.isEmpty := by
  cases h with
  | bottom f => rfl
  | inner g name h => rfl

theorem next (h : Onto closed s s') : Onto closed ⟨s.frame.next, s.outer⟩ ⟨s'.frame.next, s'.outer⟩ := by
  cases h with
  | bottom f => exact .bottom f.next
  | inner g name h => exact .inner g.next name h

theorem push {f f' : Frame} {outer outer' : List (String × Frame)}
    (h : Onto closed ⟨f, outer⟩ ⟨f', outer'⟩) (t : Tree) :
    Onto closed ⟨f.push t, outer⟩ ⟨f'.push t, outer'⟩ := by
  cases h with
  | bottom => exact .bottom (f.push t)
  | inner _ name h => exact .inner (f.push t) name h

theorem separate (h : Onto closed s s') (c : Char) :
    Onto closed ⟨s.frame.separate spaced c, s.outer⟩ ⟨s'.frame.separate spaced c, s'.outer⟩ := by
  cases h with
  | bottom f =>
    rw [Frame.separate_onto]
    exact .bottom _
  | inner g name h => exact .inner _ name h

theorem add (h : Onto closed s s') (c : Char) (comp : Component) :
    Onto closed (s.add (s.frame.separate spaced c) comp)
      (s'.add (s'.frame.separate spaced c) comp) := by
  cases comp with
  | node t => exact (h.separate c).push t
  | opening name => exact .inner .empty name (h.separate c)

end Onto

/-- The results of reading from two stacks of which the second holds further closed selectors. -/
inductive Alongside (closed : List Tree) :
    Except Failure Progress → Except Failure Progress → Prop where
  | failed (f : Failure) : Alongside closed (.error f) (.error f)
  | done (selectors : List Tree) :
      Alongside closed (.ok (.done selectors)) (.ok (.done (closed.reverse ++ selectors)))
  | more {s s' : Stack} (h : Onto closed s s') (rest : List Char) :
      Alongside closed (.ok (.more s rest)) (.ok (.more s' rest))

theorem Onto.stepToken (h : Onto closed s s') (tokens : List Char) :
    Alongside closed (stepToken s spaced tokens) (stepToken s' spaced tokens) := by
  unfold Selector.stepToken
  rw [h.nodes]
  split
  · rw [h.outer_isEmpty]
    split
    · exact .failed _
    · split
      · next houter =>
        cases h with
        | bottom f =>
          have hclose : (f.onto closed).close = closed.reverse ++ f.close := by
            simp [Frame.close, Frame.onto]
          rw [hclose]
          exact .done f.close
        | inner g name h => cases houter
      · exact .failed _
  · split
    · exact .failed _
    · exact .more h.next _
  · split
    · exact .failed _
    · cases h with
      | bottom f => exact .failed _
      | inner g name h => exact .more (h.push _) _
  · next c rest _ _ =>
    cases readComponent c rest with
    | error f => exact .failed f
    | ok r => exact .more (h.add c r.1) r.2

theorem Onto.step (h : Onto closed s s') (cs : List Char) :
    Alongside closed (step s cs) (step s' cs) := by
  unfold Selector.step
  cases skipTrivia cs with
  | error f => exact .failed f
  | ok tokens => exact h.stepToken tokens

theorem Onto.readList (h : Onto closed s s') (cs : List Char) :
    readList s' cs = (readList s cs).map (closed.reverse ++ ·) := by
  have hstep' := h.step cs
  fun_induction Selector.readList s cs generalizing s' with
  | case1 s cs f hstep =>
    rw [hstep] at hstep'
    generalize hr : Selector.step s' cs = r at hstep'
    cases hstep' with
    | failed => exact readList_of_error hr
  | case2 s cs selectors hstep =>
    rw [hstep] at hstep'
    generalize hr : Selector.step s' cs = r at hstep'
    cases hstep' with
    | done => exact readList_of_done hr
  | case3 s cs t rest hstep hshorter ih =>
    rw [hstep] at hstep'
    generalize hr : Selector.step s' cs = r at hstep'
    cases hstep' with
    | more ht => exact (readList_of_more hr).trans (ih ht (ht.step rest))

theorem Reads.ne_nil (h : Reads s cs selectors) : selectors ≠ [] := by
  induction h with
  | done _ hmove =>
    cases hmove with
    | done => simp [Frame.close]
  | more _ _ _ ih => exact ih

theorem readList_rest {f : Failure} (h : readList s cs = .error f) : f.rest <:+ cs := by
  have hwithin := step_within s cs
  fun_induction readList s cs with
  | case1 s cs g hstep =>
    cases h
    rw [hstep] at hwithin
    exact hwithin
  | case2 s cs selectors hstep => cases h
  | case3 s cs t rest hstep hshorter ih =>
    rw [hstep] at hwithin
    exact (ih h (step_within t rest)).trans hwithin

/-- A text behind an accepted one and a comma is read as if it stood alone: its selectors follow those
of the first text, or its error is moved by what stands in front of it. -/
theorem parse_comma {s₁ : String} {selectors : List Tree} (h : parse s₁ = .ok (.root selectors))
    (hend : s₁.toList.getLast? ≠ some '\\') (s₂ : String) :
    (∀ t, parse s₂ = .ok t →
      parse (s₁ ++ "," ++ s₂) = .ok (.root (selectors ++ t.children))) ∧
    ∀ e, parse s₂ = .error e →
      parse (s₁ ++ "," ++ s₂) = .error ⟨e.cause, s₁.utf8ByteSize + 1 + e.position⟩ := by
  obtain ⟨selectors', heq, hreads⟩ := parse_eq_ok_iff.1 h
  obtain ⟨-, rfl⟩ := Tree.node.inj heq
  obtain ⟨frame, hclose, hread⟩ := hreads.before_comma hend s₂.toList
  have honto : Onto frame.next.selectors .start ⟨frame.next, []⟩ := .bottom .empty
  have htext : (s₁ ++ "," ++ s₂).toList = s₁.toList ++ ',' :: s₂.toList := by
    simp [String.toList_append]
  have hlist : readList .start (s₁ ++ "," ++ s₂).toList =
      (readList .start s₂.toList).map (selectors ++ ·) := by
    rw [htext, hread, honto.readList, ← hclose]
    rfl
  unfold parse
  rw [hlist]
  cases hsecond : readList .start s₂.toList with
  | ok later =>
    refine ⟨?_, nofun⟩
    intro t ht
    cases ht
    rfl
  | error f =>
    refine ⟨nofun, ?_⟩
    intro e he
    cases he
    obtain ⟨before, hbefore⟩ := readList_rest hsecond
    have hsize : s₂.utf8ByteSize =
        (String.ofList before).utf8ByteSize + (String.ofList f.rest).utf8ByteSize := by
      rw [← String.utf8ByteSize_append, ← String.ofList_append, hbefore, String.ofList_toList]
    have hwhole : (s₁ ++ "," ++ s₂).utf8ByteSize = s₁.utf8ByteSize + 1 + s₂.utf8ByteSize := by
      rw [String.utf8ByteSize_append, String.utf8ByteSize_append]
      rfl
    have hposition : (s₁ ++ "," ++ s₂).utf8ByteSize - (String.ofList f.rest).utf8ByteSize =
        s₁.utf8ByteSize + 1 + (s₂.utf8ByteSize - (String.ofList f.rest).utf8ByteSize) := by
      omega
    exact congrArg (fun n => Except.error (Error.mk f.cause n)) hposition

end ScopedStyles.Selector
