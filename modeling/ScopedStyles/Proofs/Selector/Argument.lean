import ScopedStyles.Proofs.Selector.Comma
import ScopedStyles.Proofs.Selector.Spelling.Reading

namespace ScopedStyles.Selector

variable {name : String} {cs : List Char} {selectors : List Tree}

theorem reads_closed {frame : Frame} (hnodes : frame.nodes.isEmpty = false) :
    Reads ⟨frame, [(name, .empty)]⟩ [')'] [.selector [.functional name frame.close]] :=
  .more (IsStop.tight (.inr rfl) []) (.close hnodes rfl) (.done tight_nil (.done rfl rfl))

theorem Reads.functional (h : Reads .start cs selectors) (hname : IsPseudoName name)
    (hend : cs.getLast? ≠ some '\\') :
    Reads .start (name.toList ++ '(' :: (cs ++ [')'])) [.selector [.functional name selectors]] := by
  obtain ⟨g, tokens, rfl, hg, htight, hclose, hreads⟩ := h.unspaced rfl
  obtain ⟨frame, rfl, hnodes, hread⟩ :=
    hreads.before_stop (getLast?_ne_of_suffix (List.suffix_append g tokens) hend) (.inr rfl) []
      [(name, .empty)]
  have hlist : Reads ⟨.empty, [(name, .empty)]⟩ (tokens ++ [')'])
      [.selector [.functional name frame.close]] := by
    rw [← readList_eq_ok_iff]
    exact hread.trans (readList_eq_ok_iff.2 (reads_closed hnodes))
  have hends : EndsName ('(' :: (g ++ (tokens ++ [')']))) := by
    rintro c ⟨⟩
    decide
  obtain ⟨y, hy, hat⟩ := hname.at hends
  have hne : tokens ≠ [] := by
    rintro rfl
    exact hreads.nodes_ne_nil rfl
  obtain ⟨c, tokens, rfl⟩ := List.exists_cons_of_ne_nil hne
  have hopening : ComponentAt (.opening name) (':' :: (y ++ '(' :: g)) (c :: tokens ++ [')']) :=
    .opening hg hat (htight.stop (.inr rfl) []) hclose
  have htext : name.toList ++ '(' :: (g ++ c :: tokens ++ [')']) =
      ':' :: (y ++ '(' :: (g ++ (c :: tokens ++ [')']))) := by
    simp [hy]
  rw [htext]
  exact hopening.reads (by simp) (by decide) hlist

/-- A list of selectors is the argument of a pseudo as it stands. -/
theorem parse_functional {text : String} (hname : IsPseudoName name)
    (h : parse text = .ok (.root selectors)) (hend : text.toList.getLast? ≠ some '\\') :
    parse (name ++ "(" ++ text ++ ")") = .ok (.root [.selector [.functional name selectors]]) := by
  obtain ⟨_, hroot, hreads⟩ := parse_eq_ok_iff.1 h
  cases hroot
  refine parse_eq_ok_iff.2 ⟨_, rfl, ?_⟩
  have htext : (name ++ "(" ++ text ++ ")").toList = name.toList ++ '(' :: (text.toList ++ [')']) := by
    simp [String.toList_append]
  rw [htext]
  exact hreads.functional hname hend

end ScopedStyles.Selector
