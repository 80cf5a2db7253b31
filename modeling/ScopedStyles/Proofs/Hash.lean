import Mathlib.Logic.Function.Basic
import ScopedStyles.Proofs.Text.Base36
import ScopedStyles.Style.Engine

namespace ScopedStyles

theorem mul_factor_injective : Function.Injective fun word : UInt32 => word * 33 := by
  have hinverse : (33 : UInt32) * 1041204193 = 1 := by decide
  have hundo : Function.LeftInverse (fun word => word * 1041204193)
      (fun word : UInt32 => word * 33) := by
    intro word
    calc
      word * 33 * 1041204193 = word * (33 * 1041204193) := UInt32.mul_assoc ..
      _ = word := by rw [hinverse, UInt32.mul_one]
  exact hundo.injective

theorem hashStep_injective (unit : UInt16) : Function.Injective (hashStep unit) := by
  intro word word' h
  -- a xor can be undone, and so can multiplying with an odd number
  exact mul_factor_injective ((UInt32.xor_left_inj _).1 h)

theorem hashStep_unit_injective (word : UInt32) :
    Function.Injective fun unit => hashStep unit word := by
  intro m n h
  exact UInt16.toUInt32_inj.1 ((UInt32.xor_right_inj _).1 h)

theorem foldr_hashStep_injective (us : List UInt16) :
    Function.Injective fun word => us.foldr hashStep word := by
  induction us with
  | nil => exact Function.injective_id
  | cons u us ih => exact (hashStep_injective u).comp ih

/-- One changed unit changes the hash. -/
theorem hashUnits_replace_eq_iff (us vs : List UInt16) (m n : UInt16) :
    hashUnits (us ++ m :: vs) = hashUnits (us ++ n :: vs) ↔ m = n := by
  simp only [hashUnits, List.foldr_append, List.foldr_cons]
  -- the units behind the change choose the word, and those in front carry the difference on
  exact (foldr_hashStep_injective us).eq_iff.trans (hashStep_unit_injective _).eq_iff

theorem textHash_append_eq_iff (p x y : String) :
    textHash (p ++ x) = textHash (p ++ y) ↔ textHash x = textHash y := by
  rw [textHash_append, textHash_append]
  exact (foldr_hashStep_injective (units p)).eq_iff

theorem units_around (p q : String) {c : Char} (h : c.toNat < 0x10000) :
    units (p ++ c.toString ++ q) = units p ++ c.toNat.toUInt16 :: units q := by
  simp [units, unitsOfChar, h]

theorem toNat_toUInt16_inj {a b : Char} (ha : a.toNat < 0x10000) (hb : b.toNat < 0x10000) :
    a.toNat.toUInt16 = b.toNat.toUInt16 ↔ a = b := by
  rw [← Char.toNat_inj, ← UInt16.toNat_inj]
  simp only [Nat.toUInt16_eq, UInt16.toNat_ofNat']
  omega

theorem textHash_replace_eq_iff (p q : String) {a b : Char} (ha : a.toNat < 0x10000)
    (hb : b.toNat < 0x10000) :
    textHash (p ++ a.toString ++ q) = textHash (p ++ b.toString ++ q) ↔ a = b := by
  rw [textHash, textHash, units_around p q ha, units_around p q hb, hashUnits_replace_eq_iff,
    toNat_toUInt16_inj ha hb]

/-- Beyond the plane the two units of a pair can change so that the word stays. -/
example : textHash (Char.ofNat 0x10400).toString = textHash (Char.ofNat 0x18803).toString := by
  decide

theorem shortHash_eq_iff (s t : String) : shortHash s = shortHash t ↔ textHash s = textHash t :=
  Base36.encode_injective.eq_iff.trans UInt32.toNat_inj

namespace Style

/-- Common fronts cancel. One changed unit changes the hash, whatever units stand around it, and so does
one changed character of the Basic Multilingual Plane. Templates that differ in one such character have
different hashes. -/
theorem templateHash_separates :
    (∀ p x y : String, textHash (p ++ x) = textHash (p ++ y) ↔ textHash x = textHash y) ∧
      (∀ (us vs : List UInt16) (m n : UInt16),
        hashUnits (us ++ m :: vs) = hashUnits (us ++ n :: vs) ↔ m = n) ∧
      ∀ (p q : String) (a b : Char), a.toNat < 0x10000 → b.toNat < 0x10000 →
        (textHash (p ++ a.toString ++ q) = textHash (p ++ b.toString ++ q) ↔ a = b) ∧
          ∀ fragments fragments' : List String, String.join fragments = p ++ a.toString ++ q →
            String.join fragments' = p ++ b.toString ++ q →
              (templateHash fragments = templateHash fragments' ↔ a = b) := by
  refine ⟨textHash_append_eq_iff, hashUnits_replace_eq_iff, ?_⟩
  intro p q a b ha hb
  have htext := textHash_replace_eq_iff p q ha hb
  refine ⟨htext, ?_⟩
  intro fragments fragments' hjoin hjoin'
  rw [templateHash, templateHash, shortHash_eq_iff, hjoin, hjoin', htext]

theorem templateHash_separates_icons :
    'é'.toNat < 0x10000 ∧ '\uffff'.toNat < 0x10000 ∧
      String.join ["--icon: 😀é", "🙂;"] = "--icon: 😀" ++ 'é'.toString ++ "🙂;" ∧
      String.join ["--icon: 😀\uffff", "🙂;"] = "--icon: 😀" ++ '\uffff'.toString ++ "🙂;" ∧
      templateHash ["--icon: 😀é", "🙂;"] ≠ templateHash ["--icon: 😀\uffff", "🙂;"] := by
  have hfirst : 'é'.toNat < 0x10000 := by decide
  have hlast : '\uffff'.toNat < 0x10000 := by decide
  have hjoin : String.join ["--icon: 😀é", "🙂;"] = "--icon: 😀" ++ 'é'.toString ++ "🙂;" := by decide
  have hjoin' : String.join ["--icon: 😀\uffff", "🙂;"] =
      "--icon: 😀" ++ '\uffff'.toString ++ "🙂;" := by decide
  have hsame := (templateHash_separates.2.2 _ _ _ _ hfirst hlast).2 _ _ hjoin hjoin'
  exact ⟨hfirst, hlast, hjoin, hjoin', fun h => absurd (hsame.1 h) (by decide)⟩

end Style

end ScopedStyles
