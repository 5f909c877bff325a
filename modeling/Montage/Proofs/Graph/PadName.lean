import Mathlib.Data.List.Nodup
import Std.Data.String.ToNat
import Montage.Output.Wiring

/-!
# Names of pads

An encoder compares pads by their spelling, so two pads with different jobs must
be spelled differently whatever their numbers are. `EditPad` is the job of a pad
in the graph of an edit, and `EditPad.toPad_injective` says that its spelling
gives the job away. The names differ in their letters, except that the pad of an
output and the pad before its filter share the letters: there it is decisive
that a decimal number does not begin with a zero in front of another number.
`Pad.letterName_injective` is the same statement for the letters of a
concatenation, and `Pad.IsLetterName` says which names these are.
-/

namespace Montage

namespace Pad

theorem named_injective : Function.Injective named := by
  intro a b h
  have htext : "[" ++ a ++ "]" = "[" ++ b ++ "]" := congrArg Pad.text h
  exact (String.append_right_inj _).1 ((String.append_left_inj _).1 htext)

theorem named_eq_of_toList {a b : String} (h : a.toList = b.toList) : named a = named b := by
  rw [String.toList_inj.1 h]

def letter (index : Nat) : Char := Char.ofNat ('b'.toNat + index % 25)

theorem toNat_letter (index : Nat) : (letter index).toNat = 98 + index % 25 := by
  have hvalid : Nat.isValidChar (98 + index % 25) := by
    left
    omega
  show (Char.ofNat (98 + index % 25)).toNat = 98 + index % 25
  rw [Char.ofNat, dif_pos hvalid]
  rfl

theorem toList_letterName (index : Nat) :
    (letterName index).toList = List.replicate (index / 25 + 1) (letter index) := by
  rw [letterName, String.toList_ofList]
  rfl

theorem letterName_injective : Function.Injective letterName := by
  intro i j h
  have hlist := congrArg String.toList h
  rw [toList_letterName, toList_letterName, List.replicate_inj] at hlist
  obtain ⟨hwidth, hletter⟩ := hlist
  have hcode : 98 + i % 25 = 98 + j % 25 := by
    rw [← toNat_letter, ← toNat_letter, hletter.resolve_left (Nat.succ_ne_zero _)]
  omega

theorem eq_letter_of_mem {index : Nat} {c : Char} (h : c ∈ (letterName index).toList) :
    c = letter index := by
  rw [toList_letterName] at h
  exact List.eq_of_mem_replicate h

/-- One letter between `b` and `z`, once or several times. -/
def IsLetterName (name : String) : Prop :=
  ∃ width c, 0 < width ∧ 'b' ≤ c ∧ c ≤ 'z' ∧ name = String.ofList (List.replicate width c)

theorem letter_bounds (index : Nat) : 'b' ≤ letter index ∧ letter index ≤ 'z' := by
  have hletter := toNat_letter index
  constructor
  · show 98 ≤ (letter index).toNat
    omega
  · show (letter index).toNat ≤ 122
    omega

/-- The place of a letter among the names that are one letter wider than `k`. -/
theorem letter_sub_b {c : Char} (hb : 'b' ≤ c) (hz : c ≤ 'z') (k : Nat) :
    letter (25 * k + (c.toNat - 'b'.toNat)) = c := by
  have hlow : 98 ≤ c.toNat := hb
  have hhigh : c.toNat ≤ 122 := hz
  apply Char.toNat_inj.1
  rw [toNat_letter]
  show 98 + (25 * k + (c.toNat - 98)) % 25 = c.toNat
  omega

theorem isLetterName_letterName (index : Nat) : IsLetterName (letterName index) :=
  ⟨index / 25 + 1, letter index, Nat.succ_pos _, (letter_bounds index).1, (letter_bounds index).2,
    String.toList_injective (by rw [toList_letterName, String.toList_ofList])⟩

/-- The width and the letter are a quotient and a remainder by 25, and every
pair of them is the one of an index. -/
theorem exists_letterName_eq_iff (name : String) :
    (∃ index, letterName index = name) ↔ IsLetterName name := by
  constructor
  · rintro ⟨index, rfl⟩
    exact isLetterName_letterName index
  · rintro ⟨width, c, hwidth, hb, hz, rfl⟩
    have hlow : 98 ≤ c.toNat := hb
    have hhigh : c.toNat ≤ 122 := hz
    refine ⟨25 * (width - 1) + (c.toNat - 'b'.toNat), String.toList_injective ?_⟩
    have hquotient : (25 * (width - 1) + (c.toNat - 'b'.toNat)) / 25 + 1 = width := by
      show (25 * (width - 1) + (c.toNat - 98)) / 25 + 1 = width
      omega
    rw [toList_letterName, String.toList_ofList, letter_sub_b hb hz, hquotient]

/-- Indices and letter names are the same many: different indices have
different names, every name of one letter from `b` to `z` is the name of an
index, and no name is made of the letter `a`. -/
theorem letterName_enumerates :
    (∀ i j, letterName i = letterName j ↔ i = j) ∧
    (∀ name, (∃ index, letterName index = name) ↔ IsLetterName name) ∧
    ∀ index width, letterName index ≠ String.ofList (List.replicate width 'a') := by
  refine ⟨fun i j => letterName_injective.eq_iff, exists_letterName_eq_iff, ?_⟩
  intro index width h
  have hlist := congrArg String.toList h
  rw [toList_letterName, String.toList_ofList, List.replicate_inj] at hlist
  have ha : letter index = 'a' := hlist.2.resolve_left (Nat.succ_ne_zero _)
  exact absurd (ha ▸ (letter_bounds index).1) (by decide)

end Pad

theorem toDigits_ne_zero_cons (i j : Nat) : Nat.toDigits 10 i ≠ '0' :: Nat.toDigits 10 j := by
  intro h
  have hvalue : i = j := by
    have hi := Nat.ofDigitChars_ten_toDigits (n := i)
    rw [h, Nat.ofDigitChars_cons] at hi
    rw [← hi]
    exact Nat.ofDigitChars_ten_toDigits
  have hlength := congrArg List.length h
  rw [hvalue, List.length_cons] at hlength
  omega

/-- What a pad in the graph of an edit is for. -/
inductive EditPad where
  /-- A clip among several. -/
  | clip (kind : StreamKind) (index : Nat)
  /-- The whole edit. -/
  | edit (kind : StreamKind)
  /-- An output behind its filter. -/
  | output (kind : StreamKind) (index : Nat)
  /-- An output before its filter. -/
  | branch (kind : StreamKind) (index : Nat)
  deriving DecidableEq, Repr

namespace EditPad

/-- The kind of stream that a pad carries to an output. -/
def outputKind? : EditPad → Option StreamKind
  | output kind _ | branch kind _ => some kind
  | clip .. | edit _ => none

def chars : EditPad → List Char
  | clip kind index => kind.letter :: Nat.toDigits 10 index
  | edit kind => ['o', kind.letter]
  | output kind index => 'o' :: kind.letter :: Nat.toDigits 10 index
  | branch kind index => 'o' :: kind.letter :: '0' :: Nat.toDigits 10 index

def toPad (p : EditPad) : Pad := .named (String.ofList p.chars)

theorem letter_injective : Function.Injective StreamKind.letter := by
  intro a b h
  cases a <;> cases b <;> first | rfl | exact absurd h (by decide)

theorem letter_ne_o (kind : StreamKind) : kind.letter ≠ 'o' := by
  cases kind <;> decide

theorem toDigits_injective {i j : Nat} (h : Nat.toDigits 10 i = Nat.toDigits 10 j) : i = j := by
  apply Nat.repr_injective
  rw [Nat.repr_eq_ofList_toDigits, Nat.repr_eq_ofList_toDigits, h]

theorem chars_injective : Function.Injective chars := by
  intro p q h
  cases p with
  | clip kind index =>
    cases q <;> simp [chars, letter_ne_o, letter_injective.eq_iff] at h ⊢
    exact ⟨h.1, toDigits_injective h.2⟩
  | edit kind =>
    cases q <;> simp [chars, (letter_ne_o _).symm, letter_injective.eq_iff] at h ⊢
    exact h
  | output kind index =>
    cases q <;>
      simp [chars, (letter_ne_o _).symm, letter_injective.eq_iff, toDigits_ne_zero_cons] at h ⊢
    exact ⟨h.1, toDigits_injective h.2⟩
  | branch kind index =>
    cases q <;>
      simp [chars, (letter_ne_o _).symm, letter_injective.eq_iff,
        (toDigits_ne_zero_cons _ _).symm] at h ⊢
    exact ⟨h.1, toDigits_injective h.2⟩

theorem toPad_injective : Function.Injective toPad := fun _ _ h =>
  chars_injective (String.ofList_injective (Pad.named_injective h))

@[simp] theorem toPad_clip (kind : StreamKind) (index : Nat) :
    (clip kind index).toPad = kind.clipPad index :=
  Pad.named_eq_of_toList (by cases kind <;> simp [chars, StreamKind.letter])

@[simp] theorem toPad_edit (kind : StreamKind) : (edit kind).toPad = kind.editPad := by
  cases kind <;> rfl

@[simp] theorem toPad_output (kind : StreamKind) (index : Nat) :
    (output kind index).toPad = kind.outputPad index :=
  Pad.named_eq_of_toList (by cases kind <;> simp [chars, StreamKind.letter])

@[simp] theorem toPad_branch (kind : StreamKind) (index : Nat) :
    (branch kind index).toPad = kind.branchPad index :=
  Pad.named_eq_of_toList (by cases kind <;> simp [chars, StreamKind.letter])

theorem isAlphanum_of_mem_chars (k : EditPad) : ∀ c ∈ k.chars, c.isAlphanum = true := by
  have ho : 'o'.isAlphanum = true := by decide
  have hletter (kind : StreamKind) : kind.letter.isAlphanum = true := by cases kind <;> decide
  have hdigits (i : Nat) : ∀ c ∈ Nat.toDigits 10 i, c.isAlphanum = true := by
    intro c hc
    rw [Char.isAlphanum, Nat.isDigit_of_mem_toDigits (by decide) (by decide) hc, Bool.or_true]
  cases k with
  | clip kind index => exact List.forall_mem_cons.2 ⟨hletter kind, hdigits index⟩
  | edit kind => exact List.forall_mem_cons.2 ⟨ho, List.forall_mem_singleton.2 (hletter kind)⟩
  | output kind index =>
      exact List.forall_mem_cons.2 ⟨ho, List.forall_mem_cons.2 ⟨hletter kind, hdigits index⟩⟩
  | branch kind index =>
      have hzero : '0'.isAlphanum = true := by decide
      have htail : ∀ c ∈ '0' :: Nat.toDigits 10 index, c.isAlphanum = true :=
        List.forall_mem_cons.2 ⟨hzero, hdigits index⟩
      exact List.forall_mem_cons.2 ⟨ho, List.forall_mem_cons.2 ⟨hletter kind, htail⟩⟩

theorem not_mem_chars {c : Char} (hc : c.isAlphanum = false) (k : EditPad) : c ∉ k.chars := by
  intro h
  rw [isAlphanum_of_mem_chars k c h] at hc
  cases hc

theorem toList_toPad (k : EditPad) : k.toPad.text.toList = '[' :: (k.chars ++ [']']) := by
  simp [toPad, Pad.named]

theorem mapValue_toPad (k : EditPad) : k.toPad.mapValue = k.toPad.text := by
  have hbracket : Text.splitFirst? (· == ']') (k.chars ++ [']']) = some (k.chars, []) :=
    Text.splitFirst?_append_of_not_mem (not_mem_chars (by decide) k) []
  have hcolon : Text.splitFirst? (· == ':') k.chars = none := by
    rw [Text.splitFirst?_eq_none_iff]
    intro c hc
    simpa using ne_of_mem_of_not_mem hc (not_mem_chars (by decide) k)
  rw [Pad.mapValue, toList_toPad, Pad.rawStream?, hbracket]
  simp only [hcolon]

end EditPad

namespace Pad

/-- The pad is a stream of an input file. -/
def IsSource (p : Pad) : Prop := ∃ (i : Nat) (kind : StreamKind), p = stream i kind.letter

theorem isSource_stream (i : Nat) (kind : StreamKind) : (stream i kind.letter).IsSource :=
  ⟨i, kind, rfl⟩

theorem toList_stream (i : Nat) (kind : StreamKind) :
    (stream i kind.letter).text.toList = '[' :: (Nat.toDigits 10 i ++ [':', kind.letter] ++ [']']) := by
  simp [stream, named]

theorem mapValue_stream (i : Nat) (kind : StreamKind) :
    (stream i kind.letter).mapValue = toString i ++ ":" ++ kind.letter.toString := by
  have hdigit {c : Char} (hc : c ∈ Nat.toDigits 10 i) : c.isDigit = true :=
    Nat.isDigit_of_mem_toDigits (by decide) (by decide) hc
  have hbracket : Text.splitFirst? (· == ']') (Nat.toDigits 10 i ++ [':', kind.letter] ++ [']']) =
      some (Nat.toDigits 10 i ++ [':', kind.letter], []) := by
    apply Text.splitFirst?_append
    · intro c hc
      rcases List.mem_append.1 hc with hc | hc
      · simp only [beq_eq_false_iff_ne]
        rintro rfl
        exact absurd (hdigit hc) (by decide)
      · cases kind <;> simp [StreamKind.letter] at hc ⊢ <;> rcases hc with rfl | rfl <;> decide
    · decide
  have hcolon : Text.splitFirst? (· == ':') (Nat.toDigits 10 i ++ [':', kind.letter]) =
      some (Nat.toDigits 10 i, [kind.letter]) := by
    apply Text.splitFirst?_append_of_not_mem
    intro hc
    exact absurd (hdigit hc) (by decide)
  have hnumber : Nat.toDigits 10 i ≠ [] ∧ (Nat.toDigits 10 i).all Text.isDigit = true := by
    constructor
    · exact Nat.toDigits_ne_nil
    · rw [List.all_eq_true]
      intro c hc
      exact Text.isDigit_of_isDigit_ascii (hdigit hc)
  have hknown : ([kind.letter] == ['a'] || [kind.letter] == ['v']) = true := by cases kind <;> rfl
  have hinner : rawStream? (stream i kind.letter).text.toList =
      some (Nat.toDigits 10 i ++ [':', kind.letter]) := by
    rw [toList_stream, rawStream?, hbracket]
    simp only [hcolon]
    rw [hknown, if_pos ⟨hnumber.1, hnumber.2, rfl⟩]
  rw [mapValue, hinner]
  apply String.toList_inj.1
  simp

end Pad

theorem EditPad.colon_not_mem_text (k : EditPad) : ':' ∉ k.toPad.text.toList := by
  intro h
  rw [toList_toPad] at h
  rcases List.mem_append.1 (List.mem_of_ne_of_mem (by decide) h) with hname | hbracket
  · exact not_mem_chars (by decide) k hname
  · exact absurd hbracket (by decide)

/-- A reference to a stream has a colon in it, and the pads of an edit have none. -/
theorem EditPad.not_isSource_toPad (k : EditPad) : ¬ k.toPad.IsSource := by
  rintro ⟨i, kind, h⟩
  apply k.colon_not_mem_text
  rw [h, Pad.toList_stream]
  simp

end Montage
