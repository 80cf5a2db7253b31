import Mathlib.Tactic.SplitIfs
import ScopedStyles.JsonText.Reader
import ScopedStyles.Scope.Registry.Printer

namespace ScopedStyles.JsonText

open Scope

theorem hexValue4?_hexDigit {n : Nat} (h : n < 0x20) :
    hexValue4? '0' '0' (hexDigit (n / 16)) (hexDigit (n % 16)) = some n := by
  revert n
  decide

/-- A character is written as itself, as a short escape or by its number. -/
inductive Spells (c : Char) : List Char → Prop
  | plain (hquote : c ≠ '"') (hbackslash : c ≠ '\\') (hprint : ¬c.toNat < 0x20) : Spells c [c]
  | short {e : Char} (h : shortEscape? e = some c) : Spells c ['\\', e]
  | number (h : c.toNat < 0x20) :
    Spells c ['\\', 'u', '0', '0', hexDigit (c.toNat / 16), hexDigit (c.toNat % 16)]

theorem spells_escapeChar (c : Char) : Spells c (escapeChar c) := by
  unfold escapeChar
  split_ifs with hquote hbackslash hn ht hr hb hf hcontrol
  · exact .short (congrArg some hquote.symm)
  · exact .short (congrArg some hbackslash.symm)
  · exact .short (congrArg some hn.symm)
  · exact .short (congrArg some ht.symm)
  · exact .short (congrArg some hr.symm)
  · exact .short (congrArg some hb.symm)
  · exact .short (congrArg some hf.symm)
  · exact .number hcontrol
  · exact .plain hquote hbackslash hcontrol

variable {c : Char} {spelling cs raw rest : List Char}

theorem shortEscape?_ne {e : Char} (h : shortEscape? e = some c) : e ≠ 'u' := by
  rintro rfl
  cases h

theorem Spells.takeString (h : Spells c spelling) (hcs : takeString cs = .ok (raw, rest)) :
    takeString (spelling ++ cs) = .ok (spelling ++ raw, rest) := by
  cases h with
  | plain hquote hbackslash hprint =>
    rw [List.singleton_append, JsonText.takeString, if_neg hprint, hcs]
    · rfl
    · exact hquote
    · exact fun _ _ _ _ _ h _ => hbackslash h
    · exact fun _ _ h _ => hbackslash h
  | short h =>
    change JsonText.takeString ('\\' :: _ :: cs) = _
    rw [JsonText.takeString, h, hcs]
    · rfl
    · exact fun _ _ _ _ _ hu _ => shortEscape?_ne h hu
  | number h =>
    change JsonText.takeString ('\\' :: 'u' :: '0' :: '0' :: _ :: _ :: cs) = _
    rw [JsonText.takeString, hexValue4?_hexDigit h, hcs]
    rfl

theorem Spells.unescape? (h : Spells c spelling) (hcs : unescape? raw = some cs) :
    unescape? (spelling ++ raw) = some (c :: cs) := by
  cases h with
  | plain hquote hbackslash hprint =>
    rw [List.singleton_append, JsonText.unescape?, hcs]
    · rfl
    · exact fun _ _ _ _ _ h _ => hbackslash h
    · exact fun _ _ h _ => hbackslash h
  | short h =>
    change JsonText.unescape? ('\\' :: _ :: raw) = _
    rw [JsonText.unescape?, h, hcs]
    · rfl
    · exact fun _ _ _ _ _ hu _ => shortEscape?_ne h hu
  | number h =>
    have hhigh : ¬isHighSurrogate c.toNat := by
      simp only [isHighSurrogate, Bool.and_eq_true, decide_eq_true_eq]
      omega
    have hlow : ¬isLowSurrogate c.toNat := by
      simp only [isLowSurrogate, Bool.and_eq_true, decide_eq_true_eq]
      omega
    change JsonText.unescape? ('\\' :: 'u' :: '0' :: '0' :: _ :: _ :: raw) = _
    rw [JsonText.unescape?, hexValue4?_hexDigit h]
    simp only [hhigh, hlow, hcs, Option.map_some, Char.ofNat_toNat, Bool.false_eq_true, if_false]

theorem takeString_escape (cs rest : List Char) :
    takeString (escape cs ++ '"' :: rest) = .ok (escape cs, rest) := by
  induction cs with
  | nil => rfl
  | cons c cs ih =>
    rw [escape, List.flatMap_cons, List.append_assoc]
    exact (spells_escapeChar c).takeString ih

theorem unescape?_escape (cs : List Char) : unescape? (escape cs) = some cs := by
  induction cs with
  | nil => rfl
  | cons c cs ih => exact (spells_escapeChar c).unescape? ih

theorem decode_escape (s : String) (rest : List Char) : decode (escape s.toList) rest = .ok s := by
  rw [decode, unescape?_escape]
  exact congrArg _ s.ofList_toList

theorem readText_textChars (s : String) (rest : List Char) :
    readText (textChars s ++ rest) = .ok (s, rest) := by
  have hskip : skipSpace (textChars s ++ rest) = '"' :: (escape s.toList ++ '"' :: rest) := by
    rw [textChars, List.append_assoc]
    rfl
  rw [readText, hskip]
  simp only [takeString_escape]
  change (decode (escape s.toList) rest).map _ = _
  rw [decode_escape]
  rfl

end ScopedStyles.JsonText
