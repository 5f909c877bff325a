import Mathlib.Data.List.Infix
import Montage.Proofs.Text.Search

/-!
# Replacing in texts that are put together

A replacement goes on behind the pattern that it found (`replaced_append`), and where the
pattern does not begin the text stays. A character that the pattern does not hold divides
the text into two parts that are replaced on their own (`replaced_append_append`).
-/

namespace Montage.Text

variable {first second : Char} {pattern new : List Char}

theorem replaceFrom_eq_drop (skip : Nat) (cs : List Char) :
    replaceFrom first pattern new skip cs = replaceFrom first pattern new 0 (cs.drop skip) := by
  induction skip generalizing cs with
  | zero => rfl
  | succ skip ih =>
    cases cs with
    | nil => rfl
    | cons c cs => exact ih cs

theorem replaceFrom_cons {c : Char} {cs : List Char} (h : ¬ first :: pattern <+: c :: cs) :
    replaceFrom first pattern new 0 (c :: cs) = c :: replaceFrom first pattern new 0 cs := by
  rw [replaceFrom, if_neg (by simpa using h)]

theorem replaceFrom_of_not_infix {cs : List Char} (h : ¬ first :: pattern <:+: cs) :
    replaceFrom first pattern new 0 cs = cs := by
  induction cs with
  | nil => rfl
  | cons c cs ih =>
    have hrest : ¬ first :: pattern <:+: cs := fun hp => h (List.infix_cons hp)
    rw [replaceFrom_cons fun hp => h hp.isInfix, ih hrest]

theorem replaceFrom_append_of_not_mem {a : List Char} (h : first ∉ a) (b : List Char) :
    replaceFrom first pattern new 0 (a ++ b) = a ++ replaceFrom first pattern new 0 b := by
  induction a with
  | nil => rfl
  | cons c a ih =>
    rw [List.mem_cons, not_or] at h
    have hstart : ¬ first :: pattern <+: c :: (a ++ b) := fun hp => h.1 (List.cons_prefix_cons.1 hp).1
    rw [List.cons_append, replaceFrom_cons hstart, ih h.2, List.cons_append]

/-- Text that does not hold the first two characters of the pattern side by side stays,
unless what is behind it begins with the second of them. -/
theorem replaceFrom_append_of_not_infix {a b : List Char} (ha : ¬ [first, second] <:+: a)
    (hb : b.head? ≠ some second) :
    replaceFrom first (second :: pattern) new 0 (a ++ b) =
      a ++ replaceFrom first (second :: pattern) new 0 b := by
  induction a with
  | nil => rfl
  | cons c a ih =>
    have hstart : ¬ first :: second :: pattern <+: c :: (a ++ b) := by
      intro hp
      obtain ⟨rfl, htail⟩ := List.cons_prefix_cons.1 hp
      cases a with
      | nil =>
        obtain ⟨rest, hrest⟩ := htail
        exact hb (by rw [← List.nil_append b, ← hrest]; rfl)
      | cons d a =>
        obtain ⟨rfl, _⟩ := List.cons_prefix_cons.1 htail
        exact ha (List.IsPrefix.isInfix ⟨a, rfl⟩)
    rw [List.cons_append, replaceFrom_cons hstart, ih fun hp => ha (List.infix_cons hp),
      List.cons_append]

theorem replaceFrom_append_cons {c : Char} (hc : c ∉ first :: pattern) {skip : Nat}
    {a : List Char} (hskip : skip ≤ a.length) (b : List Char) :
    replaceFrom first pattern new skip (a ++ c :: b) =
      replaceFrom first pattern new skip a ++ c :: replaceFrom first pattern new 0 b := by
  induction a generalizing skip with
  | nil =>
    obtain rfl := Nat.le_zero.1 hskip
    rw [List.nil_append, replaceFrom_cons]
    · rfl
    · intro hp
      exact hc (by rw [(List.cons_prefix_cons.1 hp).1]; exact List.mem_cons_self)
  | cons d a ih =>
    cases skip with
    | succ skip => exact ih (Nat.le_of_succ_le_succ hskip)
    | zero =>
      have hstart := prefix_append_cons_iff (a := d :: a) (b := b) hc
      by_cases hp : first :: pattern <+: d :: a
      · have hlength : pattern.length ≤ a.length := Nat.le_of_succ_le_succ hp.length_le
        rw [List.cons_append, replaceFrom, replaceFrom, if_pos (by simpa using hstart.2 hp),
          if_pos (by simpa using hp), ih hlength, List.append_assoc]
      · have hlater : ¬ first :: pattern <+: d :: (a ++ c :: b) := fun hq => hp (hstart.1 hq)
        rw [List.cons_append, replaceFrom_cons hlater, replaceFrom_cons hp, ih (Nat.zero_le _),
          List.cons_append]

theorem count_replaceFrom {c : Char} (hc : c ∉ first :: pattern)
    (hnew : c ∉ new) (skip : Nat) (cs : List Char) :
    (replaceFrom first pattern new skip cs).count c = (cs.drop skip).count c := by
  fun_induction replaceFrom first pattern new skip cs with
  | case1 => simp
  | case2 skip d cs ih => simpa using ih
  | case3 d cs hp ih =>
    obtain ⟨rest, hrest⟩ := List.isPrefixOf_iff_prefix.1 hp
    rw [List.cons_append] at hrest
    obtain ⟨rfl, rfl⟩ := List.cons.inj hrest
    rw [List.mem_cons, not_or] at hc
    rw [List.count_append, List.count_eq_zero.2 hnew, ih, List.drop_zero, List.drop_left,
      List.count_cons_of_ne (Ne.symm hc.1), List.count_append, List.count_eq_zero.2 hc.2]
  | case4 d cs hp ih => simpa [List.count_cons] using ih

theorem replaced_of_not_infix {pattern new s : String} (h : ¬ pattern.toList <:+: s.toList) :
    replaced pattern new s = s := by
  rw [replaced]
  cases hp : pattern.toList with
  | nil => simp [replaceAll]
  | cons first rest =>
    rw [hp] at h
    rw [replaceAll, replaceFrom_of_not_infix h, String.ofList_toList]

theorem replaced_append {pattern : String} (hne : pattern ≠ "") (new s : String) :
    replaced pattern new (pattern ++ s) = new ++ replaced pattern new s := by
  obtain ⟨first, rest, hp⟩ := List.exists_cons_of_ne_nil (mt String.toList_eq_nil_iff.1 hne)
  rw [replaced, replaced, String.toList_append, hp, replaceAll, replaceAll, List.cons_append,
    replaceFrom, if_pos (by simp), replaceFrom_eq_drop, List.drop_left, String.ofList_append,
    String.ofList_toList]

/-- A character that the pattern does not hold divides the text. -/
theorem replaced_append_append {pattern separator : String} {c : Char}
    (hseparator : separator.toList = [c]) (hc : c ∉ pattern.toList) (new a b : String) :
    replaced pattern new (a ++ separator ++ b) =
      replaced pattern new a ++ separator ++ replaced pattern new b := by
  have hline : (a ++ separator ++ b).toList = a.toList ++ c :: b.toList := by simp [hseparator]
  rw [replaced, replaced, replaced, hline, ← String.toList_inj]
  cases hp : pattern.toList with
  | nil => simp [replaceAll, hseparator]
  | cons first rest =>
    rw [hp] at hc
    simp [replaceAll, replaceFrom_append_cons hc (Nat.zero_le _), hseparator]

end Montage.Text
