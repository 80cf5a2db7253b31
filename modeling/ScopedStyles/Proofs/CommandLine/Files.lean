import Mathlib.Tactic.SplitIfs
import ScopedStyles.CommandLine.Files

namespace ScopedStyles.CommandLine

namespace Files

variable {f g : Files} {text : String} {p q : Path} {parts : List String} {bytes : ByteArray}

def written (f : Files) (p : Path) (bytes : ByteArray) : Files :=
  { f with contents := put p bytes f.contents }

theorem lookup_cons_eq (q : Path) (e : Path × ByteArray) (es : List (Path × ByteArray)) :
    (e :: es).lookup q = if q = e.1 then some e.2 else es.lookup q := by
  obtain ⟨p, bytes⟩ := e
  rw [List.lookup_cons]
  by_cases h : q = p
  · rw [if_pos h, beq_iff_eq.2 h]
  · rw [if_neg h, beq_false_of_ne h]

theorem lookup_put (p q : Path) (bytes : ByteArray) (es : List (Path × ByteArray)) :
    (put p bytes es).lookup q = if q = p then some bytes else es.lookup q := by
  induction es with
  | nil => exact lookup_cons_eq q (p, bytes) []
  | cons e es ih =>
    rw [put, lookup_cons_eq q e]
    by_cases hp : e.1 = p
    · rw [if_pos hp, lookup_cons_eq, hp]
      by_cases h : q = p
      · rw [if_pos h, if_pos h]
      · rw [if_neg h, if_neg h, if_neg h]
    · rw [if_neg hp, lookup_cons_eq, ih]
      by_cases h : q = p
      · rw [if_pos h, if_pos h, if_neg (h ▸ Ne.symm hp)]
      · rw [if_neg h, if_neg h]

theorem get?_written (f : Files) (p q : Path) (bytes : ByteArray) :
    (f.written p bytes).get? q = if q = p then some bytes else f.get? q :=
  lookup_put p q bytes f.contents

theorem isFolder_written (f : Files) (p : Path) (bytes : ByteArray) (q : Path) :
    (f.written p bytes).isFolder q = f.isFolder q := rfl

theorem obstacleIn_eq_none_iff : f.obstacleIn p = none ↔ f.isFolder p := by
  unfold obstacleIn
  by_cases h : f.isFolder p
  · simp [h]
  · by_cases hfile : (f.get? p).isSome <;> simp [h, hfile]

theorem follow_append (f : Files) (p : Path) (parts later : List String) :
    f.follow p (parts ++ later) = f.follow p parts >>= fun q => f.follow q later := by
  induction parts generalizing p with
  | nil => rfl
  | cons part parts ih =>
    rw [List.cons_append, follow, follow]
    cases f.obstacleIn p with
    | some o => rfl
    | none =>
      dsimp only
      split_ifs
      · exact ih p
      · exact ih p.parent
      · rfl
      · exact ih (p ++ [part])

/-- Where a path leads depends on the folders alone. -/
theorem follow_of_folders (hfolders : ∀ p, g.isFolder p = f.isFolder p)
    (h : f.follow p parts = .ok q) : g.follow p parts = .ok q := by
  induction parts generalizing p with
  | nil => exact h
  | cons part parts ih =>
    rw [follow] at h ⊢
    cases hobstacle : f.obstacleIn p with
    | some o =>
      rw [hobstacle] at h
      cases h
    | none =>
      have hfree : g.obstacleIn p = none := by
        rw [obstacleIn_eq_none_iff, hfolders]
        exact obstacleIn_eq_none_iff.1 hobstacle
      rw [hobstacle] at h
      rw [hfree]
      dsimp only at h ⊢
      split_ifs at h ⊢
      · exact ih h
      · exact ih h
      · exact ih h

theorem bind_eq_ok {ε α β : Type} {x : Except ε α} {k : α → Except ε β} {b : β}
    (h : x >>= k = .ok b) : ∃ a, x = .ok a ∧ k a = .ok b := by
  cases x with
  | error e => cases h
  | ok a => exact ⟨a, rfl, h⟩

theorem eq_of_dropWhile {names before : List String} {last : String}
    (h : names.dropWhile (· == "") = last :: before) (hslash : ¬names.head? = some "") :
    names = last :: before := by
  cases names with
  | nil => cases h
  | cons name names =>
    rwa [List.dropWhile_cons, if_neg] at h
    intro hname
    exact hslash (congrArg some (beq_iff_eq.1 hname))

/-- A path under which a file can be made: a name in a folder that is there, which names no folder. -/
structure Writable (f : Files) (text : String) (p : Path) : Prop where
  short : ¬maxPathLength < text.utf8ByteSize
  place : ∃ before last folder, Path.parts text = before ++ [last] ∧ last ≠ "" ∧
    ¬(Path.isIdle last ∨ last = "..") ∧ ¬maxNameLength < last.utf8ByteSize ∧
    f.follow (Path.origin text) before = .ok folder ∧ f.isFolder folder ∧ p = folder ++ [last]
  plain : f.isFolder p = false

theorem findForWriting_eq_ok_iff : f.findForWriting text = .ok p ↔ f.Writable text p := by
  constructor
  · intro h
    simp only [findForWriting] at h
    cases hdrop : (Path.parts text).reverse.dropWhile (· == "") with
    | nil =>
      rw [hdrop] at h
      cases h
    | cons last before =>
      rw [hdrop] at h
      dsimp only at h
      by_cases hlong : maxPathLength < text.utf8ByteSize
      · rw [if_pos hlong] at h
        cases h
      rw [if_neg hlong] at h
      by_cases hlast : Path.isIdle last ∨ last = ".."
      · rw [if_pos hlast] at h
        obtain ⟨q, -, hq⟩ := bind_eq_ok h
        split at hq <;> cases hq
      rw [if_neg hlast] at h
      obtain ⟨folder, hfollow, hfolder⟩ := bind_eq_ok h
      split at hfolder
      · cases hfolder
      next hfree =>
      split_ifs at hfolder with hslash hname hplain
      cases hfolder
      have hreverse := eq_of_dropWhile hdrop hslash
      have hne : last ≠ "" := by
        rintro rfl
        exact hslash (hreverse ▸ rfl)
      have hparts : Path.parts text = before.reverse ++ [last] := by
        rw [← List.reverse_cons, ← hreverse, List.reverse_reverse]
      exact ⟨hlong, ⟨before.reverse, last, folder, hparts, hne, hlast, hname, hfollow,
        obstacleIn_eq_none_iff.1 hfree, rfl⟩, Bool.eq_false_iff.2 hplain⟩
  · intro h
    obtain ⟨before, last, folder, hparts, hne, hlast, hname, hfollow, hfolder, rfl⟩ := h.place
    have hreverse : (before ++ [last]).reverse = last :: before.reverse := List.reverse_append
    have hfree := obstacleIn_eq_none_iff.2 hfolder
    have hkept : (last :: before.reverse).dropWhile (· == "") = last :: before.reverse := by
      rw [List.dropWhile_cons, if_neg]
      exact fun h => hne (beq_iff_eq.1 h)
    simp only [findForWriting, hparts, hreverse, hkept, if_neg h.short, if_neg hlast, if_neg hname,
      List.reverse_reverse, hfollow, bind, Except.bind, hfree]
    simp [hne, h.plain]

theorem Writable.find (h : f.Writable text p) : f.find text = .ok p := by
  obtain ⟨before, last, folder, hparts, -, hlast, hname, hfollow, hfolder, rfl⟩ := h.place
  rw [not_or] at hlast
  rw [Files.find, if_neg h.short, hparts, follow_append, hfollow]
  change f.follow folder [last] = _
  rw [follow, obstacleIn_eq_none_iff.2 hfolder]
  dsimp only
  rw [if_neg hlast.1, if_neg hlast.2, if_neg hname]
  rfl

theorem Writable.of_folders (hfolders : ∀ p, g.isFolder p = f.isFolder p)
    (h : f.Writable text p) : g.Writable text p := by
  obtain ⟨before, last, folder, hparts, hne, hlast, hname, hfollow, hfolder, hp⟩ := h.place
  exact ⟨h.short, ⟨before, last, folder, hparts, hne, hlast, hname, follow_of_folders hfolders hfollow,
    (hfolders folder).trans hfolder, hp⟩, (hfolders p).trans h.plain⟩

theorem find_of_folders (hfolders : ∀ p, g.isFolder p = f.isFolder p) (h : f.find text = .ok p) :
    g.find text = .ok p := by
  unfold Files.find at h ⊢
  split_ifs at h ⊢
  exact follow_of_folders hfolders h

theorem read_eq_ok_iff {s : String} :
    f.read text = .ok s ↔ ∃ p bytes, f.find text = .ok p ∧ f.isFolder p = false ∧
      f.get? p = some bytes ∧ String.fromUTF8? bytes = some s := by
  constructor
  · intro h
    obtain ⟨p, hfind, hread⟩ := bind_eq_ok h
    split at hread
    · cases hread
    · cases hread
    next hobstacle hget =>
    split at hread
    · next htext =>
      cases hread
      refine ⟨p, _, hfind, ?_, hget, htext⟩
      rw [← Bool.not_eq_true, ← obstacleIn_eq_none_iff, hobstacle]
      exact Option.some_ne_none _
    · cases hread
  · rintro ⟨p, bytes, hfind, hplain, hget, htext⟩
    have hobstacle : f.obstacleIn p = some .notFolder := by
      rw [obstacleIn, hplain, hget]
      rfl
    simp only [read, hfind, bind, Except.bind, hobstacle, hget, htext]

theorem read_of_text {s : String} (hfind : f.find text = .ok p) (hplain : f.isFolder p = false)
    (hget : f.get? p = some s.toUTF8) : f.read text = .ok s :=
  read_eq_ok_iff.2 ⟨p, s.toUTF8, hfind, hplain, hget, dif_pos s.isValidUTF8⟩

theorem Writable.exists?_eq (h : f.Writable text p) : f.exists? text = (f.get? p).isSome := by
  rw [exists?, h.find]
  dsimp only
  rw [h.plain, Bool.false_or]

theorem Writable.write (h : f.Writable text p) (s : String) :
    f.write text s = .ok (f.written p s.toUTF8) := by
  rw [Files.write, findForWriting_eq_ok_iff.2 h]
  rfl

theorem Writable.after (h : f.Writable text p) (bytes : ByteArray) :
    (f.written p bytes).Writable text p :=
  h.of_folders (isFolder_written f p bytes)

theorem Writable.read_written (h : f.Writable text p) (s : String) :
    (f.written p s.toUTF8).read text = .ok s := by
  apply read_of_text (h.after _).find h.plain
  rw [get?_written, if_pos rfl]

/-- Any other file is as it was. -/
theorem read_written_of_ne {s : String} (h : f.read text = .ok s) (hne : f.find text ≠ .ok p)
    (bytes : ByteArray) : (f.written p bytes).read text = .ok s := by
  obtain ⟨q, old, hfind, hplain, hget, htext⟩ := read_eq_ok_iff.1 h
  apply read_eq_ok_iff.2
  refine ⟨q, old, find_of_folders (isFolder_written f p bytes) hfind, hplain, ?_, htext⟩
  rw [get?_written, if_neg]
  · exact hget
  · rintro rfl
    exact hne hfind

end Files

end ScopedStyles.CommandLine
