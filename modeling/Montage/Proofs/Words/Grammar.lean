import Mathlib.Data.List.Chain
import Montage.Proofs.Words

/-!
# Command lines as they are written

Who writes a command line writes each word in pieces that touch: bare text, escaped quotes
and texts in quotes. Blanks keep the words apart, and may stand at both ends. A line that is
written like this (`Line`) is read as the words that were meant (`ofLine?_written_append`),
whatever is behind it. So a quote that is opened behind it and never closed makes the whole
line unreadable.
-/

namespace Montage.Words

inductive Quote where
  | single
  | double
  deriving DecidableEq, Repr

def Quote.mark : Quote → String
  | single => "'"
  | double => "\""

/-- A part of a word, by the way in which it is written. -/
inductive Piece where
  | bare (text : String)
  | escaped (quote : Quote)
  | single (text : String)
  | double (text : String)
  deriving DecidableEq, Repr

namespace Piece

def content : Piece → String
  | bare text => text
  | escaped quote => quote.mark
  | single text => text
  | double text => text

def escapeDouble (cs : List Char) : List Char :=
  cs.flatMap fun c => if c = '"' then ['\\', '"'] else [c]

def written : Piece → String
  | bare text => text
  | escaped quote => "\\" ++ quote.mark
  | single text => "'" ++ text ++ "'"
  | double text => "\"" ++ String.ofList (escapeDouble text.toList) ++ "\""

def IsProper : Piece → Prop
  | bare text => text ≠ "" ∧ ∀ c ∈ text.toList, Text.isBlank c = false ∧ c ≠ '\'' ∧ c ≠ '"'
  | escaped _ => True
  | single text => '\'' ∉ text.toList
  | double text => text.toList.getLast? ≠ some '\\'

/-- A backslash at the end of bare text would escape the quote that a quoted text begins
with. -/
def MayPrecede : Piece → Piece → Prop
  | bare text, single _ => text.toList.getLast? ≠ some '\\'
  | bare text, double _ => text.toList.getLast? ≠ some '\\'
  | _, _ => True

instance : DecidablePred IsProper := fun p =>
  match p with
  | bare text => @instDecidableAnd _ _ inferInstance
      (List.decidableBAll (fun c => Text.isBlank c = false ∧ c ≠ '\'' ∧ c ≠ '"') text.toList)
  | escaped _ => inferInstanceAs (Decidable True)
  | single _ => inferInstanceAs (Decidable (¬ _))
  | double _ => inferInstanceAs (Decidable (¬ _))

instance : DecidableRel MayPrecede := fun p q =>
  match p, q with
  | bare _, single _ | bare _, double _ => inferInstanceAs (Decidable (¬ _))
  | bare _, bare _ | bare _, escaped _ => inferInstanceAs (Decidable True)
  | escaped _, _ | single _, _ | double _, _ => inferInstanceAs (Decidable True)

end Piece

structure Word where
  pieces : List Piece
  pieces_ne_nil : pieces ≠ []
  proper : ∀ p ∈ pieces, p.IsProper
  apart : pieces.IsChain Piece.MayPrecede

namespace Word

def content (w : Word) : String := String.join (w.pieces.map Piece.content)

def written (w : Word) : String := String.join (w.pieces.map Piece.written)

end Word

structure Line where
  /-- The words, each with the blanks in front of it. -/
  entries : List (String × Word)
  /-- The blanks behind the last word. -/
  tail : String
  blank : ∀ e ∈ entries, Text.isBlankText e.1 = true
  blank_tail : Text.isBlankText tail = true
  apart : ∀ e ∈ entries.tail, e.1 ≠ ""

namespace Line

def contents (line : Line) : List String := line.entries.map fun e => e.2.content

def written (line : Line) : String :=
  String.join (line.entries.map fun e => e.1 ++ e.2.written) ++ line.tail

end Line

variable {cs rest : List Char}

theorem scan_double_text (h : cs.getLast? ≠ some '\\') (rest : List Char) :
    (scan .double (Piece.escapeDouble cs ++ '"' :: rest)).map Scan.opened =
      (scan .bare rest).map (Scan.begun cs) := by
  induction cs with
  | nil => rfl
  | cons c cs ih =>
    have hcs : cs.getLast? ≠ some '\\' := by
      intro hlast
      apply h
      rw [List.getLast?_cons, hlast, Option.getD_some]
    have hstep : scan .double (Piece.escapeDouble (c :: cs) ++ '"' :: rest) =
        (scan .double (Piece.escapeDouble cs ++ '"' :: rest)).map (Scan.extend c) := by
      by_cases hquote : c = '"'
      · subst hquote
        rfl
      · have hwritten : Piece.escapeDouble (c :: cs) = c :: Piece.escapeDouble cs := by
          simp [Piece.escapeDouble, hquote]
        rw [hwritten, List.cons_append, scan]
        · -- what is written behind a backslash begins with a quote only at the very end
          rintro more rfl hmore
          cases cs with
          | nil => exact h rfl
          | cons d cs =>
            by_cases hd : d = '"'
            · simp [Piece.escapeDouble, hd] at hmore
            · simp [Piece.escapeDouble, hd] at hmore
        · exact hquote
    rw [hstep, map_opened_extend, ih hcs, map_begun_cons]

theorem scan_piece {p : Piece} (hp : p.IsProper)
    (hrest : ∀ text, p = .bare text → text.toList.getLast? = some '\\' → Unopened rest) :
    scan .bare (p.written.toList ++ rest) =
      (scan .bare rest).map (Scan.begun p.content.toList) := by
  cases p with
  | bare text =>
    exact scan_bare_text (mt String.toList_eq_nil_iff.1 hp.1) hp.2 rest (hrest text rfl)
  | escaped quote => cases quote <;> rfl
  | single text =>
    have hwritten : (Piece.single text).written.toList ++ rest =
        '\'' :: (text.toList ++ '\'' :: rest) := by
      simp [Piece.written]
    rw [hwritten, scan, scan_single_text hp]
    rfl
  | double text =>
    have hwritten : (Piece.double text).written.toList ++ rest =
        '"' :: (Piece.escapeDouble text.toList ++ '"' :: rest) := by
      simp [Piece.written]
    rw [hwritten, scan, scan_double_text hp]
    rfl

theorem unopened_written {p q : Piece} (hapart : p.MayPrecede q) (hq : q.IsProper) {text : String}
    (hp : p = .bare text) (hslash : text.toList.getLast? = some '\\') (rest : List Char) :
    Unopened (q.written.toList ++ rest) := by
  subst hp
  intro more
  cases q with
  | bare text' =>
    obtain ⟨c, cs, hcs⟩ := List.exists_cons_of_ne_nil (mt String.toList_eq_nil_iff.1 hq.1)
    obtain ⟨_, hmark, hquote⟩ := hq.2 c (by simp [hcs])
    rw [Piece.written, hcs, List.cons_append]
    exact ⟨fun heq => hmark (List.cons.inj heq).1, fun heq => hquote (List.cons.inj heq).1⟩
  | escaped quote => simp [Piece.written]
  | single text' | double text' => exact absurd hslash hapart

/-- The pieces of a word are read as one text. -/
theorem scan_pieces {pieces : List Piece} (hne : pieces ≠ []) (hproper : ∀ p ∈ pieces, p.IsProper)
    (hapart : pieces.IsChain Piece.MayPrecede) (hrest : Unopened rest) :
    scan .bare ((String.join (pieces.map Piece.written)).toList ++ rest) =
      (scan .bare rest).map (Scan.begun (String.join (pieces.map Piece.content)).toList) := by
  induction hapart with
  | nil => exact absurd rfl hne
  | singleton p =>
    simpa using scan_piece (hproper p List.mem_cons_self) fun _ _ _ => hrest
  | @cons_cons p q pieces hpq hchain ih =>
    obtain ⟨hp, hpieces⟩ := List.forall_mem_cons.1 hproper
    have hnext (text : String) (hbare : p = .bare text)
        (hslash : text.toList.getLast? = some '\\') :
        Unopened ((String.join ((q :: pieces).map Piece.written)).toList ++ rest) := by
      rw [List.map_cons, String.join_cons, String.toList_append, List.append_assoc]
      exact unopened_written hpq (hpieces q List.mem_cons_self) hbare hslash _
    rw [List.map_cons, String.join_cons, String.toList_append, List.append_assoc,
      scan_piece hp hnext, ih (List.cons_ne_nil q pieces) hpieces, Option.map_map]
    simp [Function.comp_def, Scan.begun_begun]

def StartsBlank (a : String) : Prop := ∀ c ∈ a.toList.head?, Text.isBlank c = true

theorem startsBlank_append {gap : String} (hblank : Text.isBlankText gap = true) {a : String}
    (h : gap = "" → StartsBlank a) : StartsBlank (gap ++ a) := by
  intro c hc
  rw [String.toList_append] at hc
  cases hgap : gap.toList with
  | nil => exact h (String.toList_eq_nil_iff.1 hgap) c (by simpa [hgap] using hc)
  | cons d ds =>
    obtain rfl : d = c := by simpa [hgap] using hc
    exact List.all_eq_true.1 hblank d (by simp [hgap])

theorem scan_bare_blank {c : Char} (h : Text.isBlank c = true) (cs : List Char) :
    scan .bare (c :: cs) = (scan .bare cs).map Scan.ended := by
  have hne (d : Char) (hd : Text.isBlank d = false) : c ≠ d := by
    rintro rfl
    exact absurd (h.symm.trans hd) (by decide)
  rw [scan_bare_cons (hne _ (by decide)) (hne _ (by decide)), if_pos h]
  · exact fun _ hslash => absurd hslash (hne _ (by decide))
  · exact fun _ hslash => absurd hslash (hne _ (by decide))

theorem ofLine?_blank_append {gap : String} (h : Text.isBlankText gap = true) (a : String) :
    ofLine? (gap ++ a) = ofLine? a := by
  rw [Text.isBlankText, List.all_eq_true] at h
  rw [ofLine?, ofLine?, String.toList_append]
  generalize gap.toList = blanks at h
  induction blanks with
  | nil => rfl
  | cons c cs ih =>
    rw [List.cons_append, scan_bare_blank (h c List.mem_cons_self), Option.map_map,
      ← ih fun d hd => h d (List.mem_cons_of_mem c hd)]
    rfl

theorem StartsBlank.unopened {a : String} (h : StartsBlank a) : Unopened a.toList := by
  intro more
  constructor
  · intro heq
    exact absurd (h '\'' (by simp [heq])) (by decide)
  · intro heq
    exact absurd (h '"' (by simp [heq])) (by decide)

theorem ofLine?_word_append (w : Word) {a : String} (ha : StartsBlank a) :
    ofLine? (w.written ++ a) = (ofLine? a).map (w.content :: ·) := by
  rw [ofLine?, ofLine?, String.toList_append, Word.written,
    scan_pieces w.pieces_ne_nil w.proper w.apart ha.unopened]
  -- no word goes on behind this one
  cases hcs : a.toList with
  | nil => simp [scan, Scan.begun, Scan.done, Scan.words, Word.content, ← String.toList_inj]
  | cons c cs =>
    rw [scan_bare_blank (ha c (by simp [hcs]))]
    simp only [Option.map_map]
    congr 1
    funext s
    simp [Scan.begun, Scan.ended, Scan.words, Word.content, ← String.toList_inj]

theorem startsBlank_entries {entries : List (String × Word)}
    (hblank : ∀ e ∈ entries, Text.isBlankText e.1 = true) (hapart : ∀ e ∈ entries, e.1 ≠ "")
    {a : String} (ha : StartsBlank a) :
    StartsBlank (String.join (entries.map fun e => e.1 ++ e.2.written) ++ a) := by
  cases entries with
  | nil => simpa using ha
  | cons e entries =>
    rw [List.map_cons, String.join_cons, String.append_assoc, String.append_assoc]
    apply startsBlank_append (hblank e List.mem_cons_self)
    exact fun hempty => absurd hempty (hapart e List.mem_cons_self)

theorem ofLine?_entries_append {entries : List (String × Word)}
    (hblank : ∀ e ∈ entries, Text.isBlankText e.1 = true) (hapart : ∀ e ∈ entries.tail, e.1 ≠ "")
    {a : String} (ha : StartsBlank a) :
    ofLine? (String.join (entries.map fun e => e.1 ++ e.2.written) ++ a) =
      (ofLine? a).map (entries.map (fun e => e.2.content) ++ ·) := by
  induction entries with
  | nil => simp
  | cons e entries ih =>
    obtain ⟨hgap, hentries⟩ := List.forall_mem_cons.1 hblank
    have hrest := startsBlank_entries hentries hapart ha
    have hlater : ∀ e ∈ entries.tail, e.1 ≠ "" := fun e he => hapart e (List.mem_of_mem_tail he)
    rw [List.map_cons, String.join_cons, String.append_assoc, String.append_assoc,
      ofLine?_blank_append hgap, ofLine?_word_append e.2 hrest, ih hentries hlater,
      Option.map_map]
    rfl

/-- A line is read on its own if a blank stands behind it. -/
theorem ofLine?_written_append (line : Line) {a : String} (ha : StartsBlank a) :
    ofLine? (line.written ++ a) = (ofLine? a).map (line.contents ++ ·) := by
  have htail : StartsBlank (line.tail ++ a) := startsBlank_append line.blank_tail fun _ => ha
  rw [Line.written, String.append_assoc, ofLine?_entries_append line.blank line.apart htail,
    ofLine?_blank_append line.blank_tail]
  rfl

theorem startsBlank_empty : StartsBlank "" := by
  simp [StartsBlank]

theorem ofLine?_written (line : Line) : ofLine? line.written = some line.contents := by
  have hread := ofLine?_written_append line startsBlank_empty
  rw [String.append_empty] at hread
  rw [hread]
  simp [ofLine?, scan, Scan.words, Scan.done]

/-- Nothing in the text closes the quote in front of it: there is no other single quote, and
each other double quote has a backslash in front. -/
def Quote.StaysOpen : Quote → String → Prop
  | single, text => '\'' ∉ text.toList
  | double, text => ('"' :: text.toList).IsChain fun c d => d = '"' → c = '\\'

instance (quote : Quote) (text : String) : Decidable (quote.StaysOpen text) :=
  match quote with
  | .single => inferInstanceAs (Decidable (¬ _))
  | .double => inferInstanceAs (Decidable (List.IsChain (fun c d => d = '"' → c = '\\') _))

theorem scan_single_eq_none (h : '\'' ∉ cs) : scan .single cs = none := by
  induction cs with
  | nil => rfl
  | cons c cs ih =>
    rw [List.mem_cons, not_or] at h
    rw [scan, ih h.2]
    · rfl
    · exact Ne.symm h.1

theorem scan_double_eq_none (h : cs.IsChain fun c d => d = '"' → c = '\\')
    (hfirst : cs.head? ≠ some '"') : scan .double cs = none := by
  generalize hdouble : Quoting.double = quoting
  fun_induction scan quoting cs with
  | case3 => rfl
  | case6 cs ih =>
    -- a quote behind an escaped one has none in front that would escape it
    have hnext : cs.head? ≠ some '"' := fun hhead => absurd (h.tail.rel_head? hhead rfl) (by decide)
    rw [ih h.tail.tail hnext rfl]
    rfl
  | case7 cs => simp at hfirst
  | case8 c cs hescape hc ih =>
    have hnext : cs.head? ≠ some '"' := by
      intro hhead
      obtain ⟨more, rfl⟩ := List.head?_eq_some_iff.1 hhead
      exact hescape more (h.rel_head? hhead rfl) rfl
    rw [ih h.tail hnext rfl]
    rfl
  | _ => cases hdouble

theorem ofLine?_eq_none_of_staysOpen {quote : Quote} {text : String} (h : quote.StaysOpen text) :
    ofLine? (quote.mark ++ text) = none := by
  cases quote with
  | single =>
    have hline : (Quote.single.mark ++ text).toList = '\'' :: text.toList := by
      simp [Quote.mark]
    rw [ofLine?, hline, scan, scan_single_eq_none h]
    rfl
  | double =>
    have hline : (Quote.double.mark ++ text).toList = '"' :: text.toList := by
      simp [Quote.mark]
    have hfirst : text.toList.head? ≠ some '"' := fun hhead =>
      absurd (List.IsChain.rel_head? h hhead rfl) (by decide)
    have hscan : scan .double text.toList = none :=
      scan_double_eq_none (List.IsChain.tail h) hfirst
    rw [ofLine?, hline, scan, hscan]
    rfl

/-- Each word is read as what its pieces stand for. An open quote behind the line is an
error. -/
theorem tokenize_written (line : Line) :
    tokenize line.written = .ok line.contents ∧
      ∀ (gap : String) (quote : Quote) (rest : String), Text.isBlankText gap = true → gap ≠ "" →
        quote.StaysOpen rest → tokenize (line.written ++ gap ++ quote.mark ++ rest) =
          .error (.template (.unbalancedQuotes (line.written ++ gap ++ quote.mark ++ rest))) := by
  constructor
  · rw [tokenize_eq_ok_iff, ofLine?_written]
  · intro gap quote rest hgap hne hopen
    have hblank : StartsBlank (gap ++ (quote.mark ++ rest)) :=
      startsBlank_append hgap fun hempty => absurd hempty hne
    have hread := ofLine?_written_append line hblank
    rw [ofLine?_blank_append hgap, ofLine?_eq_none_of_staysOpen hopen, Option.map_none,
      ← String.append_assoc, ← String.append_assoc] at hread
    rw [tokenize, hread]

/-- Either kind of quotes holds the other, backslashes stand in front of blanks, quotes and
each other, and the last quote has an escaped one behind it. -/
theorem tokenize_written_nested :
    let line : Line := {
      entries := [
        (" ", ⟨[.bare "a\\,", .single "b \"\\", .escaped .double],
          by simp, by decide, by decide⟩),
        ("\t\u2003", ⟨[.double ""], by simp, by decide, by decide⟩),
        ("\n", ⟨[.double "it's \\\"x\"", .bare "c\\"], by simp, by decide, by decide⟩)]
      tail := ""
      blank := by decide
      blank_tail := by decide
      apart := by decide }
    line.written = " a\\,'b \"\\'\\\"\t\u2003\"\"\n\"it's \\\\\"x\\\"\"c\\" ∧
      tokenize line.written = .ok ["a\\,b \"\\\"", "", "it's \\\"x\"c\\"] ∧
      Quote.double.StaysOpen "d\\\" '" ∧
      tokenize (line.written ++ " " ++ Quote.double.mark ++ "d\\\" '") =
        .error (.template (.unbalancedQuotes
          (line.written ++ " " ++ Quote.double.mark ++ "d\\\" '"))) := by
  intro line
  obtain ⟨hread, hopen⟩ := tokenize_written line
  have hstays : Quote.double.StaysOpen "d\\\" '" := by decide
  exact ⟨by decide, hread, hstays, hopen " " .double _ (by decide) (by decide) hstays⟩

end Montage.Words
