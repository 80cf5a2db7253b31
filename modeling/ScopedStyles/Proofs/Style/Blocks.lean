import ScopedStyles.Css.Lexer
import ScopedStyles.Proofs.Css.Context
import ScopedStyles.Proofs.Style.Registration

namespace ScopedStyles

variable {pattern replacement : List Char} {c : Char}

theorem replaceFrom_skip (pattern replacement : List Char) (skip : Nat) (cs : List Char) :
    replaceFrom pattern replacement skip cs = replaceAll pattern replacement (cs.drop skip) := by
  induction skip generalizing cs with
  | zero => rfl
  | succ skip ih =>
    cases cs with
    | nil => rfl
    | cons c cs => exact ih cs

theorem replaceAll_front (h : pattern ≠ []) (cs : List Char) :
    replaceAll pattern replacement (pattern ++ cs) =
      replacement ++ replaceAll pattern replacement cs := by
  cases pattern with
  | nil => exact absurd rfl h
  | cons p ps =>
    have hfront : (p :: ps).isPrefixOf (p :: (ps ++ cs)) = true :=
      List.isPrefixOf_iff_prefix.2 (List.prefix_append (p :: ps) cs)
    rw [List.cons_append, replaceAll, replaceFrom, if_pos hfront, replaceFrom_skip,
      List.length_cons, Nat.add_sub_cancel, List.drop_left]

theorem replaceAll_other {cs : List Char} (h : ¬ pattern <+: c :: cs) :
    replaceAll pattern replacement (c :: cs) = c :: replaceAll pattern replacement cs := by
  have hfront : ¬ pattern.isPrefixOf (c :: cs) = true := fun hp => h (List.isPrefixOf_iff_prefix.1 hp)
  rw [replaceAll, replaceFrom, if_neg hfront, replaceAll]

end ScopedStyles

namespace ScopedStyles.Style

open Css (Context)

variable {key : String} {x : Context} {ch : Char} {cs : List Char}

def isWordChar (c : Char) : Bool :=
  Css.isNameChar c || c == '\\'

/-- Whether a block is opened here or further on, in front of where a declaration or a block ends. -/
def facesBlock : Context → List Char → Bool
  | _, [] => false
  | x, c :: cs =>
    if x.isOpen && (c == ';' || c == '\x7b' || c == '\x7d') then c == '\x7b'
    else facesBlock (x.next c) cs

/-- Whether a selector has the class of the anchor here, and not one with a longer name. -/
def isAnchor (key : String) (x : Context) : List Char → Bool
  | '.' :: cs =>
    x.isOpen && cs.takeWhile isWordChar == (anchorClass key).toList && facesBlock x ('.' :: cs)
  | _ => false

def isSeam (x : Context) (cs : List Char) : Bool :=
  x.isOpen && ['\x7d', '\x7b'].isPrefixOf cs

/-- An ampersand for each anchor and between the blocks at each seam, behind the characters to skip. -/
def nestFrom (key : String) : Nat → Context → List Char → List Char
  | _, _, [] => []
  | skip + 1, x, c :: cs => nestFrom key skip (x.next c) cs
  | 0, x, c :: cs =>
    if isAnchor key x (c :: cs) then
      '&' :: nestFrom key (anchorClass key).toList.length (x.next c) cs
    else if isSeam x (c :: cs) then c :: '&' :: nestFrom key 0 (x.next c) cs
    else c :: nestFrom key 0 (x.next c) cs

def nested (key css : String) : String :=
  "&" ++ String.ofList (nestFrom key 0 .plain css.toList)

def anchorChars (key : String) : List Char :=
  '.' :: (anchorClass key).toList

theorem anchorChars_ne_nil (key : String) : anchorChars key ≠ [] :=
  List.cons_ne_nil _ _

/-- From here on the text of the anchor stands only where the anchor is meant, and that of a seam neither in
strings nor in comments. -/
def Unmistaken (key : String) (x : Context) (cs : List Char) : Prop :=
  ∀ before after, cs = before ++ after →
    (anchorChars key <+: after → isAnchor key (x.after before) after = true) ∧
      (['\x7d', '\x7b'] <+: after → (x.after before).isOpen = true)

theorem unmistaken_nil (key : String) (x : Context) : Unmistaken key x [] := by
  intro before after h
  obtain ⟨rfl, rfl⟩ := List.append_eq_nil_iff.1 h.symm
  exact ⟨fun hp => absurd (List.prefix_nil.1 hp) (List.cons_ne_nil _ _),
    fun hp => absurd (List.prefix_nil.1 hp) (by decide)⟩

theorem unmistaken_cons :
    Unmistaken key x (ch :: cs) ↔
      (anchorChars key <+: ch :: cs → isAnchor key x (ch :: cs) = true) ∧
        (['\x7d', '\x7b'] <+: ch :: cs → x.isOpen = true) ∧ Unmistaken key (x.next ch) cs := by
  constructor
  · intro h
    refine ⟨(h [] _ rfl).1, (h [] _ rfl).2, ?_⟩
    intro before after hsplit
    exact h (ch :: before) after (congrArg (ch :: ·) hsplit)
  · rintro ⟨hanchor, hseam, hrest⟩ before after hsplit
    cases before with
    | nil =>
      subst hsplit
      exact ⟨hanchor, hseam⟩
    | cons b before =>
      obtain ⟨rfl, hsplit'⟩ := List.cons.inj hsplit
      exact hrest before after hsplit'

theorem not_anchor_of_ne (h : ch ≠ '.') : ¬ anchorChars key <+: ch :: cs := by
  intro hp
  exact h (List.cons_prefix_cons.1 hp).1.symm

theorem not_seam_of_ne (h : ch ≠ '\x7d') : ¬ ['\x7d', '\x7b'] <+: ch :: cs := by
  intro hp
  exact h (List.cons_prefix_cons.1 hp).1.symm

theorem unmistaken_word {n : List Char} (hn : ∀ c ∈ n, isWordChar c = true) :
    Unmistaken key x (n ++ cs) ↔ Unmistaken key (x.after n) cs := by
  induction n generalizing x with
  | nil => exact Iff.rfl
  | cons c n ih =>
    obtain ⟨hc, hn⟩ := List.forall_mem_cons.1 hn
    have hdot : c ≠ '.' := by
      rintro rfl
      exact absurd hc (by decide)
    have hbrace : c ≠ '\x7d' := by
      rintro rfl
      exact absurd hc (by decide)
    rw [List.cons_append, unmistaken_cons, Context.after_cons, ← ih hn]
    refine ⟨fun h => h.2.2, fun h => ⟨?_, ?_, h⟩⟩
    · exact fun hp => absurd hp (not_anchor_of_ne hdot)
    · exact fun hp => absurd hp (not_seam_of_ne hbrace)

theorem exists_of_isAnchor (h : isAnchor key x cs = true) :
    (∃ rest, cs = anchorChars key ++ rest) ∧ ∀ c ∈ (anchorClass key).toList, isWordChar c = true := by
  rw [isAnchor.eq_def] at h
  split at h
  · next cs =>
    simp only [Bool.and_eq_true, beq_iff_eq] at h
    rw [anchorChars, ← h.1.2]
    refine ⟨⟨cs.dropWhile isWordChar, ?_⟩, List.all_eq_true.1 List.all_takeWhile⟩
    rw [List.cons_append, List.takeWhile_append_dropWhile]
  · cases h

theorem not_isAnchor (h : ¬ anchorChars key <+: cs) : isAnchor key x cs = false := by
  apply Bool.eq_false_iff.2
  intro hanchor
  obtain ⟨⟨rest, rfl⟩, -⟩ := exists_of_isAnchor hanchor
  exact h (List.prefix_append _ _)

theorem not_isSeam (h : ¬ ['\x7d', '\x7b'] <+: cs) : isSeam x cs = false := by
  rw [isSeam, Bool.eq_false_iff.2 fun hp => h (List.isPrefixOf_iff_prefix.1 hp), Bool.and_false]

theorem unmistaken_anchor (h : isAnchor key x (anchorChars key ++ cs) = true) :
    Unmistaken key x (anchorChars key ++ cs) ↔ Unmistaken key (x.after (anchorChars key)) cs := by
  obtain ⟨-, hword⟩ := exists_of_isAnchor h
  have hseam : ¬ ['\x7d', '\x7b'] <+: anchorChars key ++ cs := not_seam_of_ne (by decide)
  rw [anchorChars, Context.after_cons, ← unmistaken_word hword]
  rw [anchorChars] at h hseam
  refine unmistaken_cons.trans ⟨fun h => h.2.2, fun hrest => ⟨fun _ => h, ?_, hrest⟩⟩
  exact fun hp => absurd hp hseam

theorem nestFrom_skip (key : String) (skip : Nat) (x : Context) (cs : List Char) :
    nestFrom key skip x cs = nestFrom key 0 (x.after (cs.take skip)) (cs.drop skip) := by
  induction skip generalizing x cs with
  | zero => rfl
  | succ skip ih =>
    cases cs with
    | nil => rfl
    | cons c cs => exact ih (x.next c) cs

theorem nestFrom_anchor (h : isAnchor key x (anchorChars key ++ cs) = true) :
    nestFrom key 0 x (anchorChars key ++ cs) =
      '&' :: nestFrom key 0 (x.after (anchorChars key)) cs := by
  rw [anchorChars, List.cons_append] at h ⊢
  rw [nestFrom, if_pos h, nestFrom_skip, List.take_left, List.drop_left, Context.after_cons]

theorem nestFrom_seam (h : x.isOpen = true) (cs : List Char) :
    nestFrom key 0 x ('\x7d' :: '\x7b' :: cs) =
      '\x7d' :: '&' :: nestFrom key 0 (x.next '\x7d') ('\x7b' :: cs) := by
  have hanchor : isAnchor key x ('\x7d' :: '\x7b' :: cs) = false :=
    not_isAnchor (not_anchor_of_ne (by decide))
  have hseam : isSeam x ('\x7d' :: '\x7b' :: cs) = true := by
    rw [isSeam, h]
    rfl
  rw [nestFrom, hanchor, hseam]
  rfl

theorem nestFrom_other (hanchor : isAnchor key x (ch :: cs) = false)
    (hseam : isSeam x (ch :: cs) = false) :
    nestFrom key 0 x (ch :: cs) = ch :: nestFrom key 0 (x.next ch) cs := by
  rw [nestFrom, hanchor, hseam]
  rfl

def replaced (key : String) (cs : List Char) : List Char :=
  replaceAll ['\x7d', '\x7b'] ['\x7d', '&', '\x7b'] (replaceAll (anchorChars key) ['&'] cs)

theorem replaced_anchor (key : String) (cs : List Char) :
    replaced key (anchorChars key ++ cs) = '&' :: replaced key cs := by
  rw [replaced, replaceAll_front (anchorChars_ne_nil key), List.singleton_append,
    replaceAll_other (not_seam_of_ne (by decide)), replaced]

theorem seam_of_replaced (h : ['\x7d', '\x7b'] <+: '\x7d' :: replaceAll (anchorChars key) ['&'] cs) :
    ['\x7d', '\x7b'] <+: '\x7d' :: cs := by
  obtain ⟨-, h⟩ := List.cons_prefix_cons.1 h
  refine List.cons_prefix_cons.2 ⟨rfl, ?_⟩
  cases cs with
  | nil => exact h
  | cons c cs =>
    by_cases hanchor : anchorChars key <+: c :: cs
    · obtain ⟨rest, hrest⟩ := hanchor
      rw [← hrest, replaceAll_front (anchorChars_ne_nil key)] at h
      exact absurd (List.cons_prefix_cons.1 h).1 (by decide)
    · rw [replaceAll_other hanchor] at h
      exact List.cons_prefix_cons.2 ⟨(List.cons_prefix_cons.1 h).1, List.nil_prefix⟩

theorem replaced_other (hanchor : ¬ anchorChars key <+: ch :: cs)
    (hseam : ¬ ['\x7d', '\x7b'] <+: ch :: cs) : replaced key (ch :: cs) = ch :: replaced key cs := by
  rw [replaced, replaceAll_other hanchor, replaceAll_other, replaced]
  intro hp
  obtain ⟨rfl, -⟩ := List.cons_prefix_cons.1 hp
  exact hseam (seam_of_replaced hp)

theorem replaced_seam (key : String) (cs : List Char) :
    replaced key ('\x7d' :: '\x7b' :: cs) = '\x7d' :: '&' :: replaced key ('\x7b' :: cs) := by
  have hbrace : replaceAll (anchorChars key) ['&'] ('\x7b' :: cs) =
      '\x7b' :: replaceAll (anchorChars key) ['&'] cs :=
    replaceAll_other (not_anchor_of_ne (by decide))
  have hseam : ∀ tail, replaceAll ['\x7d', '\x7b'] ['\x7d', '&', '\x7b'] ('\x7d' :: '\x7b' :: tail) =
      '\x7d' :: '&' :: '\x7b' :: replaceAll ['\x7d', '\x7b'] ['\x7d', '&', '\x7b'] tail :=
    replaceAll_front (List.cons_ne_nil _ _)
  rw [replaced, replaced, replaceAll_other (not_anchor_of_ne (by decide)), hbrace, hseam,
    replaceAll_other (not_seam_of_ne (by decide))]

theorem bareBlock_eq (key css : String) :
    bareBlock key css = "&" ++ String.ofList (replaced key css.toList) := by
  have hanchor : ("." ++ anchorClass key).toList = anchorChars key := String.toList_append
  have hampersand : "&".toList = ['&'] := by decide
  have hseam : "\x7d\x7b".toList = ['\x7d', '\x7b'] := by decide
  have hnested : "\x7d&\x7b".toList = ['\x7d', '&', '\x7b'] := by decide
  rw [bareBlock, replaceText, replaceText, hanchor, hampersand, hseam, hnested, String.toList_ofList,
    replaced]

theorem replaced_ne_of_anchor (hnot : isAnchor key x (anchorChars key ++ cs) = false) :
    replaced key (anchorChars key ++ cs) ≠ nestFrom key 0 x (anchorChars key ++ cs) := by
  have hnest : nestFrom key 0 x (anchorChars key ++ cs) = '.' :: _ :=
    nestFrom_other hnot (not_isSeam (not_seam_of_ne (by decide)))
  rw [replaced_anchor, hnest]
  exact fun h => absurd (List.cons.inj h).1 (by decide)

theorem replaced_ne_of_seam (hopen : ¬ x.isOpen = true) :
    replaced key ('\x7d' :: '\x7b' :: cs) ≠ nestFrom key 0 x ('\x7d' :: '\x7b' :: cs) := by
  have hseam : isSeam x ('\x7d' :: '\x7b' :: cs) = false := by
    rw [isSeam, Bool.eq_false_iff.2 hopen, Bool.false_and]
  rw [replaced_seam, nestFrom_other (not_isAnchor (not_anchor_of_ne (by decide))) hseam,
    nestFrom_other (not_isAnchor (not_anchor_of_ne (by decide)))
      (not_isSeam (not_seam_of_ne (by decide)))]
  exact fun h => absurd (List.cons.inj (List.cons.inj h).2).1 (by decide)

/-- The replacements nest a text, exactly if no replaced text is mistaken. -/
theorem replaced_eq_iff (key : String) (x : Context) (cs : List Char) :
    replaced key cs = nestFrom key 0 x cs ↔ Unmistaken key x cs := by
  match cs with
  | [] => exact iff_of_true rfl (unmistaken_nil key x)
  | c :: cs =>
    -- an anchor in front, a seam, or a character that both sides copy
    by_cases hanchor : anchorChars key <+: c :: cs
    · obtain ⟨rest, hrest⟩ := id hanchor
      have hshorter : rest.length < cs.length + 1 := by
        rw [← List.length_cons, ← hrest, anchorChars, List.cons_append, List.length_cons,
          List.length_append]
        omega
      by_cases hmeant : isAnchor key x (c :: cs) = true
      · rw [← hrest] at hmeant ⊢
        rw [replaced_anchor, nestFrom_anchor hmeant, unmistaken_anchor hmeant, List.cons_inj_right]
        exact replaced_eq_iff key _ rest
      · refine iff_of_false ?_ fun h => hmeant ((unmistaken_cons.1 h).1 hanchor)
        rw [← hrest] at hmeant ⊢
        exact replaced_ne_of_anchor (Bool.eq_false_iff.2 hmeant)
    · by_cases hseam : ['\x7d', '\x7b'] <+: c :: cs
      · obtain ⟨rest, hrest⟩ := id hseam
        obtain ⟨rfl, rfl⟩ : '\x7d' = c ∧ '\x7b' :: rest = cs := List.cons.inj hrest
        rw [unmistaken_cons]
        by_cases hopen : x.isOpen = true
        · rw [replaced_seam, nestFrom_seam hopen, List.cons_inj_right, List.cons_inj_right,
            replaced_eq_iff key _ _]
          exact ⟨fun h => ⟨fun hp => absurd hp hanchor, fun _ => hopen, h⟩, fun h => h.2.2⟩
        · exact iff_of_false (replaced_ne_of_seam hopen) fun h => hopen (h.2.1 hseam)
      · rw [replaced_other hanchor hseam, nestFrom_other (not_isAnchor hanchor) (not_isSeam hseam),
          List.cons_inj_right, unmistaken_cons, replaced_eq_iff key _ cs]
        exact ⟨fun h => ⟨fun hp => absurd hp hanchor, fun hp => absurd hp hseam, h⟩, fun h => h.2.2⟩
termination_by cs.length

theorem bareBlock_eq_nested_iff (key css : String) :
    bareBlock key css = nested key css ↔ Unmistaken key .plain css.toList := by
  rw [← replaced_eq_iff, bareBlock_eq, nested, String.append_right_inj, String.ofList_inj]

/-- A block that is compiled is stored nested in its anchor, exactly if its css holds the class of the anchor
only as a selector of just this name, and a closing with an opening brace behind it neither in strings nor in
comments. -/
theorem stored_nested_iff (c : Compiler) (e : Engine) (key source : String) (vars : Variables)
    {out : CompiledCss} (hnew : e.cache.find? key = none)
    (hcall : c e.calls (callOf key source) = .ok out) (hblock : startsBlock out.css = true) :
    (obtain c e key source vars).2.cache.get? key = some ⟨key, nested key out.css, out.tokens⟩ ↔
      Unmistaken key .plain out.css.toList := by
  have hstored : (obtain c e key source vars).2.cache.get? key =
      some ⟨key, bareBlock key out.css, out.tokens⟩ := by
    have hlookup := obtain_lookup c e key source vars
    generalize obtain c e key source vars = r at hlookup
    cases hlookup with
    | hit h => exact absurd (h.symm.trans hnew) nofun
    | failed _ h => exact absurd (h.symm.trans hcall) nofun
    | compiled _ h =>
      cases Except.ok.inj (h.symm.trans hcall)
      have hget : e.cache.get? key = none := by
        rw [Cache.get?_eq_find?, hnew]
        rfl
      rw [Engine.extended, Cache.get?_push, callOf_key, hget, if_pos rfl, styled, callOf_key, hblock]
      rfl
  rw [hstored, ← bareBlock_eq_nested_iff, Option.some_inj, CompiledStyle.mk.injEq]
  exact ⟨fun h => h.2.1, fun h => ⟨rfl, h, rfl⟩⟩

def answering (css : String) : Compiler :=
  .ofFunction fun _ => .ok ⟨css, ∅⟩

theorem stored_nested_hover :
    Engine.new.cache.find? "k" = none ∧
      answering "\x7ba:b\x7d.___k:hover\x7bc:d\x7d\x7be:f\x7d" [] (callOf "k" "a:b;") =
        .ok ⟨"\x7ba:b\x7d.___k:hover\x7bc:d\x7d\x7be:f\x7d", ∅⟩ ∧
      startsBlock "\x7ba:b\x7d.___k:hover\x7bc:d\x7d\x7be:f\x7d" = true ∧
      nested "k" "\x7ba:b\x7d.___k:hover\x7bc:d\x7d\x7be:f\x7d" =
        "&\x7ba:b\x7d&:hover\x7bc:d\x7d&\x7be:f\x7d" ∧
      Unmistaken "k" .plain "\x7ba:b\x7d.___k:hover\x7bc:d\x7d\x7be:f\x7d".toList :=
  ⟨rfl, rfl, rfl, rfl, (stored_nested_iff (answering _) .new "k" "a:b;" ∅ rfl rfl rfl).1 rfl⟩

/-- An ampersand is put into a string, where no block begins, and a class whose name only begins like that of
the anchor loses this beginning. -/
theorem not_nested_quoted :
    (¬ ∀ (c : Compiler) (e : Engine) (key source : String) (vars : Variables) (out : CompiledCss),
      e.cache.find? key = none → c e.calls (callOf key source) = .ok out →
        startsBlock out.css = true → (obtain c e key source vars).2.cache.get? key =
          some ⟨key, nested key out.css, out.tokens⟩) ∧
      bareBlock "k" "\x7ba:\"\x7d\x7b\"\x7d" = "&\x7ba:\"\x7d&\x7b\"\x7d" ∧
      nested "k" "\x7ba:\"\x7d\x7b\"\x7d" = "&\x7ba:\"\x7d\x7b\"\x7d" ∧
      bareBlock "k" "\x7ba:b\x7d.___kx\x7bc:d\x7d" = "&\x7ba:b\x7d&x\x7bc:d\x7d" ∧
      nested "k" "\x7ba:b\x7d.___kx\x7bc:d\x7d" = "&\x7ba:b\x7d.___kx\x7bc:d\x7d" := by
  refine ⟨?_, rfl, rfl, rfl, rfl⟩
  intro hall
  have hstored := hall (answering "\x7ba:\"\x7d\x7b\"\x7d") .new "k" "a:b;" ∅ _ rfl rfl rfl
  exact absurd hstored (by decide +kernel)

end ScopedStyles.Style
