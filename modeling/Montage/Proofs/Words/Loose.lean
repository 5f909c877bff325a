import Mathlib.Algebra.Order.BigOperators.Group.List
import Mathlib.Algebra.Order.Group.Nat
import Mathlib.Data.List.TakeWhile
import Montage.Proofs.Words.Grammar

/-!
# Lines on which both readings agree

The loose reading knows quotes only around a whole word, and no escapes. So a written line
is read alike by both if each of its words is either bare or one text in quotes. There are no
other such lines (`tokenize_eq_splitLoose_iff`). At the first word that is not whole, the
loose reading finds another word than the strict one, unless that word is a quoted text with
nothing but empty quotes behind it. Then it finds additional empty words, and no later part of
the line makes up for them (`contents_eq_iff`).
-/

namespace Montage.Words

namespace Piece

def IsBare : Piece → Prop
  | bare _ => True
  | escaped _ | single _ | double _ => False

/-- The piece is a text in quotes that does not hold the quote around it. -/
def IsEnclosed : Piece → Prop
  | bare _ | escaped _ => False
  | single text => '\'' ∉ text.toList
  | double text => '"' ∉ text.toList

variable {p : Piece}

theorem escapeDouble_of_not_mem {cs : List Char} (h : '"' ∉ cs) : escapeDouble cs = cs := by
  induction cs with
  | nil => rfl
  | cons c cs ih =>
    rw [List.mem_cons, not_or] at h
    rw [escapeDouble, List.flatMap_cons, if_neg (Ne.symm h.1)]
    exact congrArg (c :: ·) (ih h.2)

theorem IsEnclosed.exists_quote (h : p.IsEnclosed) : ∃ c, (c = '"' ∨ c = '\'') ∧
    c ∉ p.content.toList ∧ p.written.toList = c :: (p.content.toList ++ [c]) := by
  cases p with
  | bare | escaped => cases h
  | single text => exact ⟨'\'', Or.inr rfl, h, by simp [written, content]⟩
  | double text =>
    exact ⟨'"', Or.inl rfl, h, by simp [written, content, escapeDouble_of_not_mem h]⟩

theorem content_eq_written (h : p.IsBare) : p.content = p.written := by
  cases p with
  | bare text => rfl
  | escaped | single | double => cases h

theorem length_le_escapeDouble (cs : List Char) : cs.length ≤ (escapeDouble cs).length := by
  induction cs with
  | nil => exact Nat.le_refl 0
  | cons c cs ih =>
    have hcons : (escapeDouble (c :: cs)).length =
        (if c = '"' then ['\\', '"'] else [c]).length + (escapeDouble cs).length := by
      rw [escapeDouble, List.flatMap_cons, List.length_append]
      rfl
    rw [hcons, List.length_cons]
    split <;> simp only [List.length_cons, List.length_nil] <;> omega

theorem length_content_lt (h : ¬ p.IsBare) : p.content.toList.length < p.written.toList.length := by
  cases p with
  | bare => exact absurd trivial h
  | escaped quote => simp [content, written]
  | single text =>
    have hmark : "'".toList.length = 1 := rfl
    simp only [content, written, String.toList_append, List.length_append]
    omega
  | double text =>
    have hmark : "\"".toList.length = 1 := rfl
    have htext := length_le_escapeDouble text.toList
    simp only [content, written, String.toList_append, String.toList_ofList, List.length_append]
    omega

theorem length_content_le (p : Piece) : p.content.toList.length ≤ p.written.toList.length := by
  by_cases h : p.IsBare
  · rw [content_eq_written h]
  · exact (length_content_lt h).le

theorem mem_content_of_isBlank {c : Char} (hblank : Text.isBlank c = true)
    (h : c ∈ p.written.toList) : c ∈ p.content.toList := by
  have hne {d : Char} (hd : Text.isBlank d = false) : c ≠ d := by
    rintro rfl
    exact absurd (hblank.symm.trans hd) (by decide)
  have hmark : c ≠ '\'' := hne (by decide)
  have hquote : c ≠ '"' := hne (by decide)
  have hslash : c ≠ '\\' := hne (by decide)
  cases p with
  | bare text => exact h
  | escaped quote => cases quote <;> simp [written, Quote.mark, hmark, hquote, hslash] at h
  | single text => simpa [written, content, hmark] using h
  | double text =>
    have htext : c ∈ escapeDouble text.toList := by simpa [written, hquote] using h
    obtain ⟨d, hd, hc⟩ := List.mem_flatMap.1 htext
    split at hc
    · simp [hquote, hslash] at hc
    · rwa [List.mem_singleton.1 hc]

/-- Nothing but empty quotes stands for nothing. -/
theorem IsProper.isEnclosed_of_content (hp : p.IsProper) (h : p.content = "") : p.IsEnclosed := by
  cases p with
  | bare text => exact absurd h hp.1
  | escaped quote => cases quote <;> exact absurd h (by decide)
  | single text | double text =>
    obtain rfl : text = "" := h
    simp [IsEnclosed]

end Piece

/-- The word is bare, or one text in quotes that does not hold the quote around it. -/
def Word.IsWhole (w : Word) : Prop :=
  (∀ p ∈ w.pieces, p.IsBare) ∨ ∃ p, w.pieces = [p] ∧ p.IsEnclosed

theorem looseFrom_enclosed {c : Char} (hc : c = '"' ∨ c = '\'') {cs : List Char} (h : c ∉ cs)
    (rest : List Char) : looseFrom 0 (c :: (cs ++ c :: rest)) = cs :: looseFrom 0 rest := by
  have hdrop : (cs ++ c :: rest).drop (cs.length + 1) = rest := by simp
  rw [looseFrom, if_pos hc, Text.splitFirst?_append_of_not_mem h]
  simp only
  rw [looseFrom_eq_drop, hdrop]

theorem splitLoose_enclosed_append {p : Piece} (h : p.IsEnclosed) (a : String) :
    splitLoose (p.written ++ a) = p.content :: splitLoose a := by
  obtain ⟨c, hc, hcontent, hwritten⟩ := h.exists_quote
  have hline : (p.written ++ a).toList = c :: (p.content.toList ++ c :: a.toList) := by
    simp [hwritten]
  rw [splitLoose, hline, looseFrom_enclosed hc hcontent, List.map_cons, String.ofList_toList]
  rfl

theorem splitLoose_enclosed_pieces {pieces : List Piece} (h : ∀ p ∈ pieces, p.IsEnclosed)
    (a : String) : splitLoose (String.join (pieces.map Piece.written) ++ a) =
      pieces.map Piece.content ++ splitLoose a := by
  induction pieces with
  | nil => simp
  | cons p pieces ih =>
    obtain ⟨hp, hpieces⟩ := List.forall_mem_cons.1 h
    rw [List.map_cons, String.join_cons, String.append_assoc, splitLoose_enclosed_append hp,
      ih hpieces]
    rfl

theorem splitLoose_blank_append {gap : String} (h : Text.isBlankText gap = true) (a : String) :
    splitLoose (gap ++ a) = splitLoose a := by
  rw [Text.isBlankText, List.all_eq_true] at h
  rw [splitLoose, splitLoose, String.toList_append]
  generalize gap.toList = blanks at h
  induction blanks with
  | nil => rfl
  | cons c cs ih =>
    rw [List.cons_append, looseFrom_blank (h c List.mem_cons_self),
      ih fun d hd => h d (List.mem_cons_of_mem c hd)]

def StartsBare (a : String) : Prop :=
  ∃ c ∈ a.toList.head?, Text.isBlank c = false ∧ ¬ (c = '"' ∨ c = '\'')

theorem StartsBare.append {a : String} (h : StartsBare a) (b : String) : StartsBare (a ++ b) := by
  obtain ⟨c, hc, hbare⟩ := h
  refine ⟨c, ?_, hbare⟩
  rw [String.toList_append, List.head?_append, hc]
  rfl

theorem splitLoose_of_startsBare {a : String} (h : StartsBare a) :
    splitLoose a = String.ofList (a.toList.takeWhile (!Text.isBlank ·)) ::
      splitLoose (String.ofList (a.toList.dropWhile (!Text.isBlank ·))) := by
  obtain ⟨c, hc, hblank, hquote⟩ := h
  obtain ⟨cs, hcs⟩ := List.head?_eq_some_iff.1 hc
  rw [splitLoose, splitLoose, String.toList_ofList, hcs, looseFrom_run hblank hquote,
    List.map_cons]

theorem StartsBlank.takeWhile_eq_nil {a : String} (h : StartsBlank a) :
    a.toList.takeWhile (!Text.isBlank ·) = [] := by
  cases hcs : a.toList with
  | nil => rfl
  | cons c cs => simp [h c (by simp [hcs])]

theorem StartsBlank.dropWhile_eq_self {a : String} (h : StartsBlank a) :
    a.toList.dropWhile (!Text.isBlank ·) = a.toList := by
  cases hcs : a.toList with
  | nil => rfl
  | cons c cs => simp [h c (by simp [hcs])]

theorem splitLoose_bare_append {t : String} (hbare : StartsBare t)
    (hblank : ∀ c ∈ t.toList, Text.isBlank c = false) {a : String} (ha : StartsBlank a) :
    splitLoose (t ++ a) = t :: splitLoose a := by
  have hall : ∀ c ∈ t.toList, (!Text.isBlank c) = true := by simpa using hblank
  rw [splitLoose_of_startsBare (hbare.append a), String.toList_append,
    List.takeWhile_append_of_pos hall, List.dropWhile_append_of_pos hall, ha.takeWhile_eq_nil,
    ha.dropWhile_eq_self, List.append_nil, String.ofList_toList, String.ofList_toList]

namespace Word

variable {w : Word} {p : Piece} {pieces : List Piece} {a : String}

theorem content_of_pieces (h : w.pieces = p :: pieces) :
    w.content = p.content ++ String.join (pieces.map Piece.content) := by
  rw [content, h, List.map_cons, String.join_cons]

theorem written_of_pieces (h : w.pieces = p :: pieces) :
    w.written = p.written ++ String.join (pieces.map Piece.written) := by
  rw [written, h, List.map_cons, String.join_cons]

theorem toList_content (w : Word) :
    w.content.toList = w.pieces.flatMap fun p => p.content.toList := by
  rw [content, String.toList_join, List.flatMap_map]

theorem toList_written (w : Word) :
    w.written.toList = w.pieces.flatMap fun p => p.written.toList := by
  rw [written, String.toList_join, List.flatMap_map]

theorem content_eq_written_iff : w.content = w.written ↔ ∀ p ∈ w.pieces, p.IsBare := by
  constructor
  · intro h
    by_contra hbare
    push Not at hbare
    have hlt := List.sum_lt_sum (fun p : Piece => p.content.toList.length)
      (fun p => p.written.toList.length) (fun p _ => p.length_content_le)
      (hbare.imp fun p hp => ⟨hp.1, Piece.length_content_lt hp.2⟩)
    have hlength := congrArg (fun s : String => s.toList.length) h
    simp only [toList_content, toList_written, List.length_flatMap] at hlength
    omega
  · intro h
    rw [content, written, List.map_congr_left fun p hp => Piece.content_eq_written (h p hp)]

theorem mem_content_of_isBlank {c : Char} (hblank : Text.isBlank c = true)
    (h : c ∈ w.written.toList) : c ∈ w.content.toList := by
  rw [toList_written, List.mem_flatMap] at h
  obtain ⟨p, hp, hc⟩ := h
  rw [toList_content]
  exact List.mem_flatMap.2 ⟨p, hp, Piece.mem_content_of_isBlank hblank hc⟩

theorem isBlank_of_mem_bare (h : ∀ p ∈ w.pieces, p.IsBare) :
    ∀ c ∈ w.written.toList, Text.isBlank c = false := by
  intro c hc
  rw [toList_written, List.mem_flatMap] at hc
  obtain ⟨p, hp, hc⟩ := hc
  cases p with
  | bare text => exact ((w.proper _ hp).2 c hc).1
  | escaped | single | double => cases h _ hp

theorem splitLoose_of_bare (h : ∀ p ∈ w.pieces, p.IsBare) (hstart : StartsBare w.written)
    (ha : StartsBlank a) : splitLoose (w.written ++ a) = w.content :: splitLoose a := by
  rw [content_eq_written_iff.2 h]
  exact splitLoose_bare_append hstart (isBlank_of_mem_bare h) ha

/-- A word that begins without quotes is cut at its first blank, and if it has none, its
quotes and escapes stay. -/
theorem head?_splitLoose_of_startsBare (hbare : ¬ ∀ p ∈ w.pieces, p.IsBare)
    (hstart : StartsBare w.written) (ha : StartsBlank a) :
    (splitLoose (w.written ++ a)).head? ≠ some w.content := by
  intro hhead
  rw [splitLoose_of_startsBare (hstart.append a), List.head?_cons] at hhead
  have hfirst : (w.written ++ a).toList.takeWhile (!Text.isBlank ·) = w.content.toList := by
    rw [← Option.some.inj hhead, String.toList_ofList]
  have hblank : ∀ c ∈ w.written.toList, Text.isBlank c = false := by
    intro c hc
    by_contra hnot
    have hmem := mem_content_of_isBlank (Bool.of_not_eq_false hnot) hc
    rw [← hfirst] at hmem
    simpa [hnot] using List.mem_takeWhile_imp hmem
  have hloose := splitLoose_bare_append hstart hblank ha
  rw [splitLoose_of_startsBare (hstart.append a), hfirst, String.ofList_toList] at hloose
  exact hbare (content_eq_written_iff.1 (List.cons.inj hloose).1)

/-- A quoted text that holds the quote around it is cut there, behind the backslash. -/
theorem head?_splitLoose_of_double {text : String} (hpieces : w.pieces = .double text :: pieces)
    (hquote : '"' ∈ text.toList) : (splitLoose (w.written ++ a)).head? ≠ some w.content := by
  obtain ⟨before, behind, htext, hbefore⟩ := List.eq_append_cons_of_mem hquote
  obtain ⟨rest, hline⟩ : ∃ rest, (w.written ++ a).toList =
      '"' :: ((before ++ ['\\']) ++ '"' :: rest) := by
    rw [written_of_pieces hpieces]
    refine ⟨Piece.escapeDouble behind ++ '"' ::
      ((String.join (pieces.map Piece.written)).toList ++ a.toList), ?_⟩
    have hescape : Piece.escapeDouble text.toList =
        before ++ '\\' :: '"' :: Piece.escapeDouble behind := by
      rw [htext, Piece.escapeDouble, List.flatMap_append, List.flatMap_cons]
      exact congrArg (· ++ _) (Piece.escapeDouble_of_not_mem hbefore)
    simp [Piece.written, hescape]
  have hcut : '"' ∉ before ++ ['\\'] := by simpa using hbefore
  rw [splitLoose, hline, looseFrom_enclosed (Or.inl rfl) hcut, List.map_cons, List.head?_cons]
  intro hhead
  have hcontent := congrArg String.toList (Option.some.inj hhead)
  rw [content_of_pieces hpieces, Piece.content, String.toList_append, htext] at hcontent
  simp at hcontent

inductive ReadLoosely (w : Word) (a : String) : Prop
  /-- The word, and an empty one for each pair of quotes that is too many. -/
  | padded (count : Nat)
      (hsplit : splitLoose (w.written ++ a) =
        w.content :: (List.replicate count "" ++ splitLoose a))
      (hcount : count = 0 ↔ w.IsWhole)
  /-- Something else. -/
  | other (hnot : ¬ w.IsWhole) (hne : w.content ≠ "")
      (hhead : (splitLoose (w.written ++ a)).head? ≠ some w.content)

theorem isWhole_iff_of_pieces (hpieces : w.pieces = p :: pieces) (hp : ¬ p.IsBare) :
    w.IsWhole ↔ pieces = [] ∧ p.IsEnclosed := by
  unfold IsWhole
  rw [hpieces]
  constructor
  · rintro (hbare | ⟨q, hq, henclosed⟩)
    · exact absurd (hbare p List.mem_cons_self) hp
    · obtain ⟨rfl, hnil⟩ := List.cons.inj hq
      exact ⟨hnil, henclosed⟩
  · rintro ⟨rfl, henclosed⟩
    exact Or.inr ⟨p, rfl, henclosed⟩

theorem content_ne_empty (hpieces : w.pieces = p :: pieces) (hp : p.content ≠ "") :
    w.content ≠ "" := by
  rw [content_of_pieces hpieces]
  simp [hp]

theorem readLoosely_of_startsBare (hpieces : w.pieces = p :: pieces) (hp : p.content ≠ "")
    (hnot : ¬ p.IsEnclosed) (hstart : StartsBare w.written) (ha : StartsBlank a) :
    w.ReadLoosely a := by
  by_cases hbare : ∀ p ∈ w.pieces, p.IsBare
  · exact .padded 0 (splitLoose_of_bare hbare hstart ha) ⟨fun _ => Or.inl hbare, fun _ => rfl⟩
  · refine .other ?_ (content_ne_empty hpieces hp) (head?_splitLoose_of_startsBare hbare hstart ha)
    rintro (hall | ⟨q, hq, henclosed⟩)
    · exact hbare hall
    · rw [hpieces] at hq
      obtain ⟨rfl, _⟩ := List.cons.inj hq
      exact hnot henclosed

theorem isEnclosed_of_join_content (hproper : ∀ q ∈ pieces, q.IsProper)
    (h : String.join (pieces.map Piece.content) = "") :
    ∀ q ∈ pieces, q.content = "" ∧ q.IsEnclosed := by
  have hflat := congrArg String.toList h
  rw [String.toList_join, List.flatMap_map, String.toList_empty, List.flatMap_eq_nil_iff] at hflat
  intro q hq
  have hempty : q.content = "" := String.toList_eq_nil_iff.1 (hflat q hq)
  exact ⟨hempty, (hproper q hq).isEnclosed_of_content hempty⟩

theorem readLoosely_of_isEnclosed (hpieces : w.pieces = p :: pieces) (hp : p.IsEnclosed) :
    w.ReadLoosely a := by
  have hbare : ¬ p.IsBare := by
    cases p with
    | bare | escaped => cases hp
    | single | double => exact id
  have hwhole := isWhole_iff_of_pieces hpieces hbare
  have hproper : ∀ q ∈ pieces, q.IsProper := fun q hq => w.proper q (by simp [hpieces, hq])
  have hline : w.written ++ a = p.written ++ (String.join (pieces.map Piece.written) ++ a) := by
    rw [written_of_pieces hpieces, String.append_assoc]
  by_cases hmore : String.join (pieces.map Piece.content) = ""
  · have hempty := isEnclosed_of_join_content hproper hmore
    have henclosed : ∀ q ∈ pieces, q.IsEnclosed := fun q hq => (hempty q hq).2
    have hcontents : pieces.map Piece.content = List.replicate pieces.length "" := by
      rw [List.eq_replicate_iff, List.length_map]
      exact ⟨rfl, List.forall_mem_map.2 fun q hq => (hempty q hq).1⟩
    refine .padded pieces.length ?_ ?_
    · rw [hline, splitLoose_enclosed_append hp, splitLoose_enclosed_pieces henclosed, hcontents,
        content_of_pieces hpieces, hmore, String.append_empty]
    · rw [hwhole, List.length_eq_zero_iff]
      exact ⟨fun hnil => ⟨hnil, hp⟩, And.left⟩
  · refine .other ?_ ?_ ?_
    · rw [hwhole]
      rintro ⟨rfl, _⟩
      exact hmore rfl
    · rw [content_of_pieces hpieces]
      simp [hmore]
    · rw [hline, splitLoose_enclosed_append hp, List.head?_cons, content_of_pieces hpieces]
      intro hhead
      have hlength := congrArg String.length (Option.some.inj hhead)
      rw [String.length_append] at hlength
      exact hmore (String.length_eq_zero_iff.1 (by omega))

theorem readLoosely (w : Word) (ha : StartsBlank a) : w.ReadLoosely a := by
  obtain ⟨p, pieces, hpieces⟩ := List.exists_cons_of_ne_nil w.pieces_ne_nil
  have hp : p.IsProper := w.proper p (by rw [hpieces]; exact List.mem_cons_self)
  have hstart (h : StartsBare p.written) : StartsBare w.written := by
    rw [written_of_pieces hpieces]
    exact h.append _
  cases p with
  | bare text =>
    obtain ⟨c, cs, hcs⟩ := List.exists_cons_of_ne_nil (mt String.toList_eq_nil_iff.1 hp.1)
    obtain ⟨hblank, hmark, hquote⟩ := hp.2 c (by simp [hcs])
    refine readLoosely_of_startsBare hpieces hp.1 id (hstart ⟨c, ?_, hblank, ?_⟩) ha
    · rw [Piece.written, hcs]
      rfl
    · exact not_or.2 ⟨hquote, hmark⟩
  | escaped quote =>
    have hne : (Piece.escaped quote).content ≠ "" := by cases quote <;> decide
    have hslash : StartsBare (Piece.escaped quote).written :=
      ⟨'\\', by simp [Piece.written], by decide, by decide⟩
    exact readLoosely_of_startsBare hpieces hne id (hstart hslash) ha
  | single text => exact readLoosely_of_isEnclosed hpieces hp
  | double text =>
    by_cases hquote : '"' ∈ text.toList
    · refine .other ?_ (content_ne_empty hpieces ?_) (head?_splitLoose_of_double hpieces hquote)
      · rw [isWhole_iff_of_pieces hpieces id]
        exact fun h => h.2 hquote
      · rintro (rfl : text = "")
        cases hquote
    · exact readLoosely_of_isEnclosed hpieces hquote

end Word

variable {entries : List (String × Word)}

/-- Additional empty words are carried along to the end, so there are none. -/
theorem contents_eq_iff (hblank : ∀ e ∈ entries, Text.isBlankText e.1 = true)
    (hapart : ∀ e ∈ entries.tail, e.1 ≠ "") {tail : String} (htail : Text.isBlankText tail = true)
    (count : Nat) :
    entries.map (fun e => e.2.content) = List.replicate count "" ++
        splitLoose (String.join (entries.map fun e => e.1 ++ e.2.written) ++ tail) ↔
      count = 0 ∧ ∀ e ∈ entries, e.2.IsWhole := by
  induction entries generalizing count with
  | nil =>
    have hnone : splitLoose tail = [] := by
      rw [← String.append_empty (s := tail), splitLoose_blank_append htail]
      rfl
    simp [hnone]
  | cons e entries ih =>
    obtain ⟨hgap, hentries⟩ := List.forall_mem_cons.1 hblank
    have hstart : StartsBlank tail := by
      rw [← String.append_empty (s := tail)]
      exact startsBlank_append htail fun _ => startsBlank_empty
    have hrest := startsBlank_entries hentries hapart hstart
    have hlater := ih hentries fun e he => hapart e (List.mem_of_mem_tail he)
    rw [List.map_cons, List.map_cons, String.join_cons, String.append_assoc, String.append_assoc,
      splitLoose_blank_append hgap, List.forall_mem_cons]
    cases e.2.readLoosely hrest with
    | padded extra hsplit hcount =>
      rw [hsplit]
      cases count with
      | zero =>
        rw [List.replicate_zero, List.nil_append, List.cons.injEq, hlater, hcount]
        simp
      | succ count =>
        refine iff_of_false ?_ fun h => absurd h.1 (Nat.succ_ne_zero count)
        intro hcontents
        rw [List.replicate_succ, List.cons_append] at hcontents
        obtain ⟨hempty, hcontents⟩ := List.cons.inj hcontents
        -- the empty word moves in among the additional ones
        have hmoved : List.replicate count "" ++ e.2.content :: List.replicate extra "" =
            List.replicate (count + 1 + extra) "" := by
          rw [hempty, List.append_cons, ← List.replicate_succ', List.replicate_append_replicate]
        rw [← List.cons_append, ← List.append_assoc, hmoved] at hcontents
        have hnone := ((hlater _).1 hcontents).1
        omega
    | other hnot hne hhead =>
      refine iff_of_false ?_ fun h => hnot h.2.1
      intro hcontents
      cases count with
      | zero => exact hhead (by rw [← List.nil_append (splitLoose _)]; exact hcontents ▸ rfl)
      | succ count => exact hne (List.cons.inj hcontents).1

/-- The two readings agree on a written line exactly if each word is bare or one text in
quotes that does not hold the quote around it. -/
theorem tokenize_eq_splitLoose_iff (line : Line) :
    tokenize line.written = .ok (splitLoose line.written) ↔ ∀ e ∈ line.entries, e.2.IsWhole := by
  have hcontents : line.contents = List.replicate 0 "" ++ splitLoose line.written ↔
      0 = 0 ∧ ∀ e ∈ line.entries, e.2.IsWhole :=
    contents_eq_iff line.blank line.apart line.blank_tail 0
  rw [List.replicate_zero, List.nil_append] at hcontents
  rw [tokenize_eq_ok_iff, ofLine?_written, Option.some.injEq, hcontents]
  exact and_iff_right rfl

end Montage.Words
