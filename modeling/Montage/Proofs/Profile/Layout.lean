import Montage.Profile.Properties
import Montage.Proofs.Text.Lines

/-!
# Properties on lines

A property is written as `key = value`. The value may go over several lines, and remarks
may stand between the properties. What is read from such lines are the properties, in the
order in which they were written (`filterMap_keyValue?_entriesFrom`).
-/

namespace Montage.Properties

def IsKeyText (cs : List Char) : Prop :=
  ∀ c ∈ cs, c ≠ '=' ∧ c ≠ ':' ∧ c ≠ '\\' ∧ Text.isBlank c = false

instance (cs : List Char) : Decidable (IsKeyText cs) := List.decidableBAll _ cs

theorem IsKeyText.append {a b : List Char} (ha : IsKeyText a) (hb : IsKeyText b) :
    IsKeyText (a ++ b) := fun c hc =>
  (List.mem_append.1 hc).elim (ha c) (hb c)

def IsValueText (cs : List Char) : Prop :=
  '\\' ∉ cs ∧ (∀ c ∈ cs.head?, Text.isBlank c = false) ∧
    ∀ c ∈ cs.getLast?, Text.isBlank c = false

instance (cs : List Char) : Decidable (IsValueText cs) :=
  @instDecidableAnd _ _ inferInstance
    (@instDecidableAnd _ _ (Option.decidableForallMem _) (Option.decidableForallMem _))

/-- A comment, or nothing but blanks. -/
def IsRemark (line : List Char) : Prop :=
  ∃ indent rest, line = indent ++ rest ∧ (∀ c ∈ indent, Text.isBlank c = true) ∧
    ∀ c ∈ rest.head?, c = '#' ∨ c = '!'

/-- A further part of a value, on a line of its own. -/
structure Continuation where
  indent : List Char
  part : List Char
  isBlank_indent : ∀ c ∈ indent, Text.isBlank c = true
  head_part : ∀ c ∈ part.head?, Text.isBlank c = false

/-- The lines that begin with `first` and go on with `more`; each but the last ends in a
backslash. -/
def brokenLines (first : List Char) : List Continuation → List (List Char)
  | [] => [first]
  | c :: more => (first ++ ['\\']) :: brokenLines (c.indent ++ c.part) more

/-- The lines write these properties, in this order. -/
inductive WrittenOn : List (String × String) → List (List Char) → Prop
  | done : WrittenOn [] []
  | remark {entries line lines} : IsRemark line → WrittenOn entries lines →
      WrittenOn entries (line :: lines)
  | property {key value : String} {first more entries lines} :
      value.toList = first ++ more.flatMap Continuation.part → WrittenOn entries lines →
      WrittenOn ((key, value) :: entries)
        (brokenLines (key.toList ++ " = ".toList ++ first) more ++ lines)

theorem WrittenOn.line {key value : String} {entries lines} (h : WrittenOn entries lines) :
    WrittenOn ((key, value) :: entries)
      (brokenLines (key.toList ++ " = ".toList ++ value.toList) [] ++ lines) :=
  .property (by rw [List.flatMap_nil, List.append_nil]) h

section

variable {pending : List Char} {lines : List (List Char)}

theorem takeWhile_reverse_of_not_mem {line : List Char} (h : '\\' ∉ line) :
    line.reverse.takeWhile (· == '\\') = [] := by
  cases hrev : line.reverse with
  | nil => rfl
  | cons c cs =>
    have hmem : c ∈ line := List.mem_reverse.1 (hrev ▸ List.mem_cons_self)
    have hc : (c == '\\') = false := beq_eq_false_iff_ne.2 fun heq => h (heq ▸ hmem)
    rw [List.takeWhile_cons, hc]
    rfl

theorem continues_append_backslash {line : List Char} (h : '\\' ∉ line) :
    continues (line ++ ['\\']) = true := by
  rw [continues, List.reverse_append, List.reverse_singleton, List.singleton_append,
    List.takeWhile_cons, beq_self_eq_true, if_pos rfl, takeWhile_reverse_of_not_mem h]
  rfl

theorem continues_of_not_mem {line : List Char} (h : '\\' ∉ line) : continues line = false := by
  rw [continues, takeWhile_reverse_of_not_mem h]
  rfl

theorem entriesFrom_remark {line : List Char} (h : IsRemark line) :
    entriesFrom [] (line :: lines) = entriesFrom [] lines := by
  obtain ⟨indent, rest, rfl, hindent, hrest⟩ := h
  have hhead : ∀ c ∈ rest.head?, Text.isBlank c = false := by
    intro c hc
    rcases hrest c hc with rfl | rfl <;> rfl
  have hcomment : isComment (Text.trim (indent ++ rest)) = true := by
    rw [Text.trim, Text.trimStart_append _ _ hindent hhead]
    cases rest with
    | nil => rfl
    | cons c rest =>
      rw [Text.trimEnd_cons_of_not_isBlank (hhead c rfl), isComment]
      rcases hrest c rfl with rfl | rfl <;> rfl
  simp only [entriesFrom, List.isEmpty_nil, if_true, hcomment]

/-- The lines that go on with an entry complete it. -/
theorem entriesFrom_brokenLines_of_pending {c : Continuation} {more : List Continuation}
    (hpending : pending ≠ []) (h : '\\' ∉ c.part ++ more.flatMap Continuation.part) :
    entriesFrom pending (brokenLines (c.indent ++ c.part) more ++ lines) =
      (pending ++ (c.part ++ more.flatMap Continuation.part)) :: entriesFrom [] lines := by
  -- A line moves its part to what is pending, so `pending` and the line at hand both vary.
  induction more generalizing pending c with
  | nil =>
    rw [List.flatMap_nil, List.append_nil] at h ⊢
    simp only [brokenLines, List.singleton_append, entriesFrom, List.isEmpty_iff, hpending,
      if_false, Text.trimStart_append _ _ c.isBlank_indent c.head_part, continues_of_not_mem h,
      Bool.false_eq_true]
  | cons d more ih =>
    rw [List.mem_append, not_or] at h
    have hstart : Text.trimStart (c.indent ++ c.part ++ ['\\']) = c.part ++ ['\\'] := by
      rw [List.append_assoc]
      apply Text.trimStart_append _ _ c.isBlank_indent
      intro e he
      cases hpart : c.part with
      | nil =>
        rw [hpart] at he
        cases he
        rfl
      | cons f part =>
        rw [hpart] at he
        exact c.head_part e (by rw [hpart]; exact he)
    rw [List.flatMap_cons] at h
    have hrest : entriesFrom (pending ++ c.part) (brokenLines (d.indent ++ d.part) more ++ lines) =
        (pending ++ c.part ++ (d.part ++ more.flatMap Continuation.part)) ::
          entriesFrom [] lines :=
      ih (by simp [hpending]) h.2
    simp only [brokenLines, List.cons_append, entriesFrom, List.isEmpty_iff, hpending, if_false,
      hstart, continues_append_backslash h.1, if_true, List.dropLast_concat]
    rw [hrest, List.flatMap_cons, List.append_assoc]

end

/-- A key that can begin a line: without separators and blanks, and no remark. -/
def IsKey (key : String) : Prop := IsKeyText key.toList ∧ isComment key.toList = false

section

variable {key : String}

theorem IsKey.ne_nil (h : IsKey key) : key.toList ≠ [] := by
  intro hnil
  have hcomment := h.2
  rw [hnil] at hcomment
  cases hcomment

theorem IsKey.isComment_append (h : IsKey key) (cs : List Char) :
    isComment (key.toList ++ cs) = false := by
  have hcomment := h.2
  cases hkey : key.toList with
  | nil => exact absurd hkey h.ne_nil
  | cons c rest =>
    rw [hkey] at hcomment
    exact hcomment

theorem IsKey.trimStart_append (h : IsKey key) (cs : List Char) :
    Text.trimStart (key.toList ++ cs) = key.toList ++ cs := by
  refine Text.trimStart_append [] _ (by simp) fun c hc => (h.1 c ?_).2.2.2
  have hhead : (key.toList ++ cs).head? = key.toList.head? := List.head?_append_of_ne_nil _ h.ne_nil
  exact List.mem_of_mem_head? (hhead ▸ hc)

theorem keyValue?_append (hkey : IsKey key) (cs : List Char) :
    keyValue? (key.toList ++ ' ' :: '=' :: cs) = some (key, String.ofList (Text.trim cs)) := by
  have hsplit : Text.splitFirst? (fun c => c == '=' || c == ':') (key.toList ++ ' ' :: '=' :: cs) =
      some (key.toList ++ [' '], cs) := by
    rw [List.append_cons]
    apply Text.splitFirst?_append
    · intro d hd
      rcases List.mem_append.1 hd with hd | hd
      · obtain ⟨heq, hcolon, -⟩ := hkey.1 d hd
        simp [heq, hcolon]
      · rw [List.mem_singleton.1 hd]
        rfl
    · rfl
  have htrim : Text.trim (key.toList ++ [' ']) = key.toList := by
    refine Text.trim_append [] [' '] (by simp) (List.forall_mem_singleton.2 rfl) ?_ ?_
    · intro d hd
      exact (hkey.1 d (List.mem_of_mem_head? hd)).2.2.2
    · intro d hd
      exact (hkey.1 d (List.mem_of_getLast? hd)).2.2.2
  have hempty : key.toList.isEmpty = false := by
    rw [List.isEmpty_eq_false_iff]
    exact hkey.ne_nil
  simp only [keyValue?, hsplit, htrim, hempty, Bool.false_eq_true, if_false, String.ofList_toList]

theorem not_mem_of_isKey {value : List Char} (hkey : IsKey key) (hvalue : '\\' ∉ value) :
    '\\' ∉ key.toList ++ ' ' :: '=' :: ' ' :: value := by
  have hslash : '\\' ∉ key.toList := fun hmem => (hkey.1 _ hmem).2.2.1 rfl
  simp [hslash, hvalue]

theorem trim_line (hkey : IsKey key) (value : List Char) :
    Text.trim (key.toList ++ ' ' :: '=' :: ' ' :: value) =
      key.toList ++ ' ' :: '=' :: Text.trimEnd (' ' :: value) := by
  rw [Text.trim, hkey.trimStart_append, List.append_cons, Text.trimEnd_append_cons rfl,
    ← List.append_cons]

theorem IsValueText.trim_cons {value : List Char} (h : IsValueText value) :
    Text.trim (' ' :: value) = value := by
  have htrim := Text.trim_append [' '] [] (List.forall_mem_singleton.2 rfl) (by simp) h.2.1 h.2.2
  rwa [List.append_nil] at htrim

theorem IsValueText.trim_trimEnd_cons {value : List Char} (h : IsValueText value) :
    Text.trim (Text.trimEnd (' ' :: value)) = value := by
  cases value with
  | nil => rfl
  | cons c value =>
    rw [Text.trimEnd_eq_self, h.trim_cons]
    rw [List.getLast?_cons_cons]
    exact h.2.2

theorem entriesFrom_line {value : List Char} (hkey : IsKey key) (hslash : '\\' ∉ value)
    (lines : List (List Char)) :
    entriesFrom [] ((key.toList ++ ' ' :: '=' :: ' ' :: value) :: lines) =
      (key.toList ++ ' ' :: '=' :: Text.trimEnd (' ' :: value)) :: entriesFrom [] lines := by
  have hcontinues : continues (key.toList ++ ' ' :: '=' :: Text.trimEnd (' ' :: value)) =
      false := by
    rw [← trim_line hkey]
    exact continues_of_not_mem fun hmem =>
      not_mem_of_isKey hkey hslash (Text.mem_of_mem_trim hmem)
  simp only [entriesFrom, List.isEmpty_nil, if_true, trim_line hkey, hkey.isComment_append,
    hcontinues, Bool.false_eq_true, if_false]

theorem entriesFrom_brokenLines {first : List Char} {c : Continuation} {more : List Continuation}
    (hkey : IsKey key) (hslash : '\\' ∉ first ++ (c :: more).flatMap Continuation.part)
    (lines : List (List Char)) :
    entriesFrom [] (brokenLines (key.toList ++ ' ' :: '=' :: ' ' :: first) (c :: more) ++ lines) =
      (key.toList ++ ' ' :: '=' :: ' ' :: (first ++ (c :: more).flatMap Continuation.part)) ::
        entriesFrom [] lines := by
  rw [List.flatMap_cons, List.mem_append, not_or] at hslash
  have hline : Text.trim (key.toList ++ ' ' :: '=' :: ' ' :: first ++ ['\\']) =
      key.toList ++ ' ' :: '=' :: ' ' :: first ++ ['\\'] := by
    rw [Text.trim, List.append_assoc, hkey.trimStart_append, ← List.append_assoc,
      Text.trimEnd_append_cons rfl, Text.trimEnd_nil]
  have hcomment : isComment (key.toList ++ ' ' :: '=' :: ' ' :: first ++ ['\\']) = false := by
    rw [List.append_assoc]
    exact hkey.isComment_append _
  have hrest : entriesFrom (key.toList ++ ' ' :: '=' :: ' ' :: first)
        (brokenLines (c.indent ++ c.part) more ++ lines) =
      (key.toList ++ ' ' :: '=' :: ' ' :: first ++
        (c.part ++ more.flatMap Continuation.part)) :: entriesFrom [] lines :=
    entriesFrom_brokenLines_of_pending (by simp) hslash.2
  simp only [brokenLines, List.cons_append, entriesFrom, List.isEmpty_nil, if_true, hline,
    hcomment, continues_append_backslash (not_mem_of_isKey hkey hslash.1), Bool.false_eq_true,
    if_false, List.dropLast_concat]
  rw [hrest, List.flatMap_cons, List.append_assoc]
  rfl

/-- The lines of a property are read as one entry, which says its key and its value. -/
theorem exists_entry {value : String} (hkey : IsKey key) (hvalue : IsValueText value.toList)
    {first : List Char} {more : List Continuation}
    (hparts : value.toList = first ++ more.flatMap Continuation.part) (lines : List (List Char)) :
    ∃ entry, entriesFrom [] (brokenLines (key.toList ++ " = ".toList ++ first) more ++ lines) =
      entry :: entriesFrom [] lines ∧ keyValue? entry = some (key, value) := by
  rw [List.append_assoc, show " = ".toList ++ first = ' ' :: '=' :: ' ' :: first from rfl]
  cases more with
  | nil =>
    rw [List.flatMap_nil, List.append_nil] at hparts
    subst hparts
    refine ⟨_, entriesFrom_line hkey hvalue.1 lines, ?_⟩
    rw [keyValue?_append hkey, hvalue.trim_trimEnd_cons, String.ofList_toList]
  | cons c more =>
    refine ⟨_, entriesFrom_brokenLines hkey (hparts ▸ hvalue.1) lines, ?_⟩
    rw [← hparts, keyValue?_append hkey, hvalue.trim_cons, String.ofList_toList]

end

/-- Lines that write properties are read as these properties. -/
theorem filterMap_keyValue?_entriesFrom {entries : List (String × String)}
    {lines : List (List Char)} (h : WrittenOn entries lines)
    (hentries : ∀ e ∈ entries, IsKey e.1 ∧ IsValueText e.2.toList) :
    (entriesFrom [] lines).filterMap keyValue? = entries := by
  induction h with
  | done => rfl
  | remark hremark _ ih => rw [entriesFrom_remark hremark, ih hentries]
  | property hparts _ ih =>
    rw [List.forall_mem_cons] at hentries
    obtain ⟨⟨hkey, hvalue⟩, hrest⟩ := hentries
    obtain ⟨entry, hentry, hread⟩ := exists_entry hkey hvalue hparts _
    rw [hentry, List.filterMap_cons_some hread, ih hrest]

end Montage.Properties
