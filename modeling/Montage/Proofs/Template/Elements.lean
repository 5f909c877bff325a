import Montage.Proofs.Template

/-!
# Templates as they are written

Who writes a template has literal texts and placeholders in mind, and writes them one behind
the other. If no literal text holds the beginning of a placeholder, and no key its end, then
exactly these texts and placeholders are read again (`pieces_written`), whatever else they
hold: a key may begin like another placeholder, and a `#` or a brace may touch a placeholder.
So each value stands where its placeholder was, and all else stays (`substitute_written`).
-/

namespace Montage.Template

inductive Element where
  | text (s : String)
  | hole (key : String)
  deriving DecidableEq, Repr

namespace Element

def written : Element → String
  | text s => s
  | hole key => placeholder key

def value (params : Parameters) : Element → String
  | text s => s
  | hole key => params[key]?.getD (if key = "space" then " " else "")

def pieces : Element → List Piece
  | text s => s.toList.map .literal
  | hole key => [.hole key.toList]

theorem flatMap_resolve_pieces (params : Parameters) (e : Element) :
    e.pieces.flatMap (Piece.resolve params) = (e.value params).toList := by
  cases e with
  | text s => simp [pieces, value, List.flatMap_map, Piece.resolve, List.flatMap_singleton']
  | hole key =>
    simp only [pieces, value, List.flatMap_singleton, Piece.resolve, String.ofList_toList, spaceKey]
    cases params[key]? with
    | some value => rfl
    | none =>
      simp only [Option.getD_none]
      split <;> rfl

end Element

/-- The literal texts behind the text `before`: what stands in front of, between and behind
the placeholders. Texts side by side are one literal text, for `#` and `{a}` side by side
are a placeholder. -/
def literalsFrom (before : String) : List Element → List String
  | [] => [before]
  | .text s :: rest => literalsFrom (before ++ s) rest
  | .hole _ :: rest => before :: literalsFrom "" rest

def literals (elements : List Element) : List String := literalsFrom "" elements

variable {a b : List Char}

/-- Text without the beginning of a placeholder stays as it is, unless what is behind it
completes one. -/
theorem pieces_append_of_not_infix (ha : ¬ ['#', '\x7b'] <:+: a) (hb : b.head? ≠ some '\x7b') :
    pieces (a ++ b) = a.map .literal ++ pieces b := by
  induction a with
  | nil => rfl
  | cons c a ih =>
    have hstart : ¬ ['#', '\x7b'] <+: c :: (a ++ b) := by
      cases a with
      | nil =>
        rintro ⟨rest, hrest⟩
        obtain rfl : '\x7b' :: rest = b := (List.cons.inj hrest).2
        exact hb rfl
      | cons d a =>
        intro hstart
        exact ha (List.IsPrefix.isInfix (by simpa using hstart))
    have hstep : pieces (c :: (a ++ b)) = .literal c :: pieces (a ++ b) := by
      apply pieces_cons
      rintro rest rfl hrest
      exact hstart (by simp [hrest])
    rw [List.cons_append, hstep, ih fun hrest => ha (List.infix_cons hrest)]
    rfl

theorem pieces_placeholder {key : String} (h : '\x7d' ∉ key.toList) :
    pieces ((placeholder key).toList ++ b) = .hole key.toList :: pieces b := by
  rw [← pieces_hole h b, toList_placeholder]
  simp

theorem pieces_written_from {elements : List Element} {before : String}
    (hkeys : ∀ key, .hole key ∈ elements → '\x7d' ∉ key.toList)
    (htexts : ∀ s ∈ literalsFrom before elements, ¬ ['#', '\x7b'] <:+: s.toList) :
    pieces (before.toList ++ (String.join (elements.map Element.written)).toList) =
      before.toList.map .literal ++ elements.flatMap Element.pieces := by
  induction elements generalizing before with
  | nil =>
    have hbefore := pieces_append_of_not_infix (b := []) (htexts before List.mem_cons_self)
      (by simp)
    simpa [pieces] using hbefore
  | cons e rest ih =>
    have hrest : ∀ key, .hole key ∈ rest → '\x7d' ∉ key.toList :=
      fun key hkey => hkeys key (List.mem_cons_of_mem _ hkey)
    cases e with
    | text s =>
      have hih := @ih (before ++ s) hrest htexts
      simpa [Element.written, Element.pieces] using hih
    | hole key =>
      obtain ⟨hbefore, htail⟩ := List.forall_mem_cons.1 htexts
      have hhash : ((placeholder key).toList ++
          (String.join (rest.map Element.written)).toList).head? ≠ some '\x7b' := by
        simp [placeholder]
      have hih := @ih "" hrest htail
      rw [List.map_cons, String.join_cons, String.toList_append, Element.written,
        pieces_append_of_not_infix hbefore hhash, pieces_placeholder (hkeys key List.mem_cons_self),
        List.flatMap_cons]
      simpa [Element.pieces] using hih

/-- The texts and placeholders that were written are read again. -/
theorem pieces_written {elements : List Element}
    (hkeys : ∀ key, .hole key ∈ elements → '\x7d' ∉ key.toList)
    (htexts : ∀ s ∈ literals elements, ¬ ['#', '\x7b'] <:+: s.toList) :
    pieces (String.join (elements.map Element.written)).toList =
      elements.flatMap Element.pieces := by
  simpa using @pieces_written_from elements "" hkeys htexts

/-- Each placeholder is replaced by its value and nothing else changes. -/
theorem substitute_written {elements : List Element}
    (hkeys : ∀ key, .hole key ∈ elements → '\x7d' ∉ key.toList)
    (htexts : ∀ s ∈ literals elements, ¬ ['#', '\x7b'] <:+: s.toList) (params : Parameters) :
    substitute params (String.join (elements.map Element.written)) =
      String.join (elements.map (Element.value params)) := by
  rw [substitute, pieces_written hkeys htexts, List.flatMap_assoc, ← String.toList_inj,
    String.toList_ofList, String.toList_join, List.flatMap_map]
  exact List.flatMap_congr fun e _ => e.flatMap_resolve_pieces params

/-- Two placeholders touch, with a `#` in front and a brace behind; the values look like
placeholders, and one completes a text to one. -/
theorem substitute_written_touching :
    let elements : List Element := [.text "a#", .hole "x", .hole "#\x7b y\n", .text "\x7d",
      .text "#", .hole "space", .text "\x7bx\x7d", .hole ""]
    let params : Parameters := Std.TreeMap.ofList [("x", "\x7bx\x7d"), ("", "#\x7bx\x7d")]
    (∀ key, .hole key ∈ elements → '\x7d' ∉ key.toList) ∧
      (∀ s ∈ literals elements, ¬ ['#', '\x7b'] <:+: s.toList) ∧
      substitute params "a##\x7bx\x7d#\x7b#\x7b y\n\x7d\x7d##\x7bspace\x7d\x7bx\x7d#\x7b\x7d" =
        "a#\x7bx\x7d\x7d# \x7bx\x7d#\x7bx\x7d" := by
  intro elements params
  have hkeys : ∀ key, .hole key ∈ elements → '\x7d' ∉ key.toList := by
    simp [elements]
  have htexts : ∀ s ∈ literals elements, ¬ ['#', '\x7b'] <:+: s.toList := by decide
  have hvalue : String.join (elements.map (Element.value params)) =
      "a#\x7bx\x7d\x7d# \x7bx\x7d#\x7bx\x7d" := by decide +kernel
  exact ⟨hkeys, htexts, hvalue ▸ substitute_written hkeys htexts params⟩

end Montage.Template
