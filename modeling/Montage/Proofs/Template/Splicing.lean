import Mathlib.Data.List.Chain
import Montage.Proofs.Template.Elements
import Montage.Proofs.Words

/-!
# Fragments in their places

Each fragment is put into the whole command line, and into the fragments that are in place
already. If neither the keys of the line nor the fragments hold characters of placeholders,
then none of them can make or break the placeholder of another one. So the order of the
fragments does not matter, and the result is the line with each placeholder replaced where it
stands (`expand_written`).

Between blanks, a fragment does not touch the words around it, whatever it holds
(`tokenize_expand`).
-/

namespace Montage.Template

namespace Element

def fill (e : Element) (fragment : String × String) : Element :=
  match e with
  | text s => text s
  | hole key => if key = fragment.1 then text fragment.2 else hole key

/-- What stands for the element in a line whose fragments are in place: a placeholder that is
not one of a fragment stays. -/
def spliced (params : Parameters) : Element → String
  | text s => s
  | hole key => params[fragmentKey key]?.getD (placeholder key)

end Element

/-- What is written with these elements has no other placeholders. -/
structure ArePlain (elements : List Element) : Prop where
  keys : ∀ key, .hole key ∈ elements → IsUnmarked key
  texts : ∀ s ∈ literals elements, ¬ ['#', '\x7b'] <:+: s.toList

/-- A fragment that can neither make a placeholder nor break one. -/
structure IsApart (fragment : String × String) : Prop where
  name : IsUnmarked fragment.1
  value : IsUnmarked fragment.2
  value_ne : fragment.2 ≠ ""

variable {params : Parameters} {fragment : String × String} {elements : List Element}

theorem splice_append_of_not_infix {a b : String} (ha : ¬ ['#', '\x7b'] <:+: a.toList)
    (hb : b.toList.head? ≠ some '\x7b') (fragment : String × String) :
    splice (a ++ b) fragment = a ++ splice b fragment := by
  rw [splice, splice, Text.replaced, Text.replaced, toList_placeholder, Text.replaceAll,
    Text.replaceAll, String.toList_append, Text.replaceFrom_append_of_not_infix ha hb,
    String.ofList_append, String.ofList_toList]

theorem splice_placeholder_append (name value b : String) :
    splice (placeholder name ++ b) (name, value) = value ++ splice b (name, value) :=
  Text.replaced_append (by simp [placeholder]) value b

theorem splice_placeholder (name value : String) :
    splice (placeholder name) (name, value) = value := by
  have hsplice := splice_placeholder_append name value ""
  have hempty : splice "" (name, value) = "" :=
    Text.replaced_of_not_infix (by simp [toList_placeholder])
  rwa [hempty, String.append_empty, String.append_empty] at hsplice

/-- A placeholder does not begin like another one, and inside of it none begins. -/
theorem splice_placeholder_append_of_ne {key : String} (hkey : IsUnmarked key)
    (hname : IsUnmarked fragment.1) (hne : key ≠ fragment.1) (b : String) :
    splice (placeholder key ++ b) fragment = placeholder key ++ splice b fragment := by
  have hstart : ¬ '#' :: '\x7b' :: (fragment.1.toList ++ ['\x7d']) <+:
      '#' :: '\x7b' :: (key.toList ++ '\x7d' :: b.toList) := by
    intro hp
    obtain ⟨rest, hrest⟩ := (List.cons_prefix_cons.1 (List.cons_prefix_cons.1 hp).2).2
    rw [List.append_assoc, List.singleton_append] at hrest
    have hsplit := congrArg (Text.splitFirst? (· == '\x7d')) hrest
    rw [Text.splitFirst?_append_of_not_mem hname.2.2,
      Text.splitFirst?_append_of_not_mem hkey.2.2] at hsplit
    exact hne (String.toList_inj.1 (Prod.mk.inj (Option.some.inj hsplit)).1.symm)
  have hhash : '#' ∉ '\x7b' :: (key.toList ++ ['\x7d']) := by simpa using hkey.1
  have htext : (placeholder key ++ b).toList =
      '#' :: ('\x7b' :: (key.toList ++ ['\x7d']) ++ b.toList) := by
    simp [placeholder]
  rw [splice, splice, Text.replaced, Text.replaced, toList_placeholder, Text.replaceAll,
    Text.replaceAll, htext, Text.replaceFrom_cons (by simpa using hstart),
    Text.replaceFrom_append_of_not_mem hhash, ← String.toList_inj]
  simp [placeholder]

theorem splice_written_from (before : String) (hname : IsUnmarked fragment.1)
    (hkeys : ∀ key, .hole key ∈ elements → IsUnmarked key)
    (htexts : ∀ s ∈ literalsFrom before elements, ¬ ['#', '\x7b'] <:+: s.toList) :
    splice (before ++ String.join (elements.map Element.written)) fragment =
      before ++ String.join (elements.map fun e => (e.fill fragment).written) := by
  induction elements generalizing before with
  | nil =>
    have hbefore := splice_append_of_not_infix (b := "") (htexts before List.mem_cons_self)
      (by simp) fragment
    simpa [splice, Text.replaced_of_not_infix, toList_placeholder] using hbefore
  | cons e rest ih =>
    have hrest : ∀ key, .hole key ∈ rest → IsUnmarked key :=
      fun key hkey => hkeys key (List.mem_cons_of_mem _ hkey)
    cases e with
    | text s =>
      have hih := ih (before ++ s) hrest htexts
      simpa [Element.written, Element.fill, String.append_assoc] using hih
    | hole key =>
      obtain ⟨hbefore, htail⟩ := List.forall_mem_cons.1 htexts
      have hhash : (placeholder key ++ String.join (rest.map Element.written)).toList.head? ≠
          some '\x7b' := by
        simp [placeholder]
      have hih := ih "" hrest htail
      rw [String.empty_append, String.empty_append] at hih
      rw [List.map_cons, List.map_cons, String.join_cons, String.join_cons, Element.written,
        splice_append_of_not_infix hbefore hhash]
      by_cases hkey : key = fragment.1
      · subst hkey
        rw [splice_placeholder_append, hih]
        simp [Element.fill, Element.written]
      · rw [splice_placeholder_append_of_ne (hkeys key List.mem_cons_self) hname hkey, hih]
        simp [Element.fill, Element.written, hkey]

theorem splice_written (hname : IsUnmarked fragment.1) (h : ArePlain elements) :
    splice (String.join (elements.map Element.written)) fragment =
      String.join (elements.map fun e => (e.fill fragment).written) := by
  have hsplice := splice_written_from "" hname h.keys h.texts
  rwa [String.empty_append, String.empty_append] at hsplice

theorem not_infix_pair_iff {c d : Char} {cs : List Char} :
    ¬ [c, d] <:+: cs ↔ cs.IsChain fun x y => ¬ (x = c ∧ y = d) := by
  rw [List.isChain_iff_forall_rel_of_append_cons_cons]
  constructor
  · rintro h _ _ a b rfl ⟨rfl, rfl⟩
    exact h ⟨a, b, by simp⟩
  · rintro h ⟨a, b, hcs⟩
    have hpair : cs = a ++ c :: d :: b := by simp [← hcs]
    exact h hpair ⟨rfl, rfl⟩

/-- Two texts together have no more pairs than each of them, if they have none at the seam. -/
theorem not_infix_append {a b : List Char} (ha : ¬ ['#', '\x7b'] <:+: a)
    (hb : ¬ ['#', '\x7b'] <:+: b) (hseam : a.getLast? = some '#' → b.head? ≠ some '\x7b') :
    ¬ ['#', '\x7b'] <:+: a ++ b := by
  rw [not_infix_pair_iff] at ha hb ⊢
  refine List.isChain_append.2 ⟨ha, hb, ?_⟩
  rintro _ hx _ hy ⟨rfl, rfl⟩
  exact hseam hx hy

theorem not_infix_of_mem_literalsFrom_fill (hfragment : IsApart fragment) {front before : String}
    (hfront : ¬ ['#', '\x7b'] <:+: front.toList) (hlast : front.toList.getLast? ≠ some '#')
    (h : ∀ s ∈ literalsFrom before elements, ¬ ['#', '\x7b'] <:+: s.toList) :
    ∀ s ∈ literalsFrom (front ++ before) (elements.map (Element.fill · fragment)),
      ¬ ['#', '\x7b'] <:+: s.toList := by
  induction elements generalizing front before with
  | nil =>
    have hbefore := h before List.mem_cons_self
    simpa [literalsFrom] using not_infix_append hfront hbefore fun hhash => absurd hhash hlast
  | cons e rest ih =>
    cases e with
    | text s =>
      rw [List.map_cons, Element.fill, literalsFrom, String.append_assoc]
      exact ih hfront hlast h
    | hole key =>
      obtain ⟨hbefore, hrest⟩ := List.forall_mem_cons.1 h
      have hjoined := not_infix_append hfront hbefore fun hhash => absurd hhash hlast
      rw [List.map_cons, Element.fill]
      split
      · have hvalue : ¬ ['#', '\x7b'] <:+: fragment.2.toList := by
          intro hp
          exact hfragment.value.1 (hp.subset (by simp))
        have hfilled : ¬ ['#', '\x7b'] <:+: (front ++ before ++ fragment.2).toList := by
          rw [String.toList_append, String.toList_append]
          apply not_infix_append hjoined hvalue
          intro _ hopen
          exact hfragment.value.2.1 (List.mem_of_mem_head? hopen)
        have hend : (front ++ before ++ fragment.2).toList.getLast? ≠ some '#' := by
          rw [String.toList_append, List.getLast?_append_of_ne_nil _
            (mt String.toList_eq_nil_iff.1 hfragment.value_ne)]
          intro hhash
          exact hfragment.value.1 (List.mem_of_getLast? hhash)
        have hih := ih hfilled hend hrest
        rwa [String.append_empty] at hih
      · rw [literalsFrom, List.forall_mem_cons]
        refine ⟨by simpa using hjoined, ?_⟩
        have hih := @ih "" "" (by simp) (by simp) hrest
        rwa [String.empty_append] at hih

theorem ArePlain.fill (h : ArePlain elements) (hfragment : IsApart fragment) :
    ArePlain (elements.map (Element.fill · fragment)) where
  keys key hkey := by
    obtain ⟨e, he, hfill⟩ := List.mem_map.1 hkey
    cases e with
    | text s => cases hfill
    | hole key' =>
      rw [Element.fill] at hfill
      split at hfill
      · cases hfill
      · exact h.keys key (hfill ▸ he)
  texts := by
    have hfilled : ∀ s ∈ literalsFrom ("" ++ "") (elements.map (Element.fill · fragment)),
        ¬ ['#', '\x7b'] <:+: s.toList :=
      not_infix_of_mem_literalsFrom_fill hfragment (by simp) (by simp) h.texts
    rwa [String.empty_append] at hfilled

/-- Fragments one after the other. -/
theorem foldl_splice_written {order : List (String × String)} (horder : ∀ f ∈ order, IsApart f)
    (h : ArePlain elements) :
    order.foldl splice (String.join (elements.map Element.written)) =
      String.join (elements.map fun e => (order.foldl Element.fill e).written) := by
  induction order generalizing elements with
  | nil => rfl
  | cons f order ih =>
    obtain ⟨hf, hrest⟩ := List.forall_mem_cons.1 horder
    have hih := ih hrest (h.fill hf)
    rw [List.map_map, List.map_map] at hih
    rw [List.foldl_cons, splice_written hf.name h]
    exact hih

theorem foldl_fill_text (order : List (String × String)) (s : String) :
    order.foldl Element.fill (.text s) = .text s := by
  induction order with
  | nil => rfl
  | cons f order ih => exact ih

theorem foldl_fill_hole_of_ne {order : List (String × String)} {key : String}
    (h : ∀ f ∈ order, key ≠ f.1) : order.foldl Element.fill (.hole key) = .hole key := by
  induction order with
  | nil => rfl
  | cons f order ih =>
    obtain ⟨hf, hrest⟩ := List.forall_mem_cons.1 h
    rw [List.foldl_cons, Element.fill, if_neg hf, ih hrest]

/-- In any order, a placeholder gets its own fragment. -/
theorem written_foldl_fill {order : List (String × String)} (h : order.Perm (fragments params))
    (e : Element) : (order.foldl Element.fill e).written = e.spliced params := by
  cases e with
  | text s => rw [foldl_fill_text]; rfl
  | hole key =>
    have hmem (value : String) : (key, value) ∈ order ↔ params[fragmentKey key]? = some value := by
      rw [h.mem_iff, mem_fragments_iff]
    cases hvalue : params[fragmentKey key]? with
    | none =>
      have hnone : ∀ f ∈ order, key ≠ f.1 := by
        rintro f hf rfl
        exact absurd ((hmem f.2).1 hf) (by simp [hvalue])
      rw [foldl_fill_hole_of_ne hnone, Element.spliced, hvalue]
      rfl
    | some value =>
      obtain ⟨first, last, rfl⟩ := List.append_of_mem ((hmem value).2 hvalue)
      have hnames := h.symm.pairwise (pairwise_fragments params) Ne.symm
      have hfirst : ∀ f ∈ first, key ≠ f.1 := fun f hf =>
        Ne.symm ((List.pairwise_append.1 hnames).2.2 f hf _ List.mem_cons_self)
      rw [List.foldl_append, foldl_fill_hole_of_ne hfirst, List.foldl_cons, Element.fill,
        if_pos rfl, foldl_fill_text, Element.spliced, hvalue]
      rfl

/-- In any order the fragments stand in the places of their placeholders, and nothing else
changes. -/
theorem expand_written (hkeys : ∀ key, .hole key ∈ elements → IsUnmarked key)
    (htexts : ∀ s ∈ literals elements, ¬ ['#', '\x7b'] <:+: s.toList)
    (hfragments : ∀ name value : String, params[fragmentKey name]? = some value →
      IsUnmarked name ∧ IsUnmarked value ∧ value ≠ "") :
    expand params (String.join (elements.map Element.written)) =
        String.join (elements.map (Element.spliced params)) ∧
      ∀ order : List (String × String), order.Perm (fragments params) →
        order.foldl splice (String.join (elements.map Element.written)) =
          expand params (String.join (elements.map Element.written)) := by
  have hall (order : List (String × String)) (h : order.Perm (fragments params)) :
      order.foldl splice (String.join (elements.map Element.written)) =
        String.join (elements.map (Element.spliced params)) := by
    have horder : ∀ f ∈ order, IsApart f := by
      rintro ⟨name, value⟩ hf
      obtain ⟨hname, hvalue, hne⟩ := hfragments name value (mem_fragments_iff.1 (h.mem_iff.1 hf))
      exact ⟨hname, hvalue, hne⟩
    rw [foldl_splice_written horder ⟨hkeys, htexts⟩]
    simp only [written_foldl_fill h]
  have hexpand := hall _ (List.Perm.refl _)
  exact ⟨hexpand, fun order h => (hall order h).trans hexpand.symm⟩

/-- A `#` and braces touch the placeholders, and one of them is not that of a fragment. -/
theorem expand_written_touching :
    let elements : List Element := [.text "\x7b#", .hole "b", .text "\x7ba\x7d", .hole "a",
      .hole "c", .text "#", .hole "b"]
    let params : Parameters := Std.TreeMap.ofList [("ffmpeg.command.a", "b"),
      ("ffmpeg.command.b", "-i 'x y'"), ("ffmpeg.commandc", "d"), ("b", "e")]
    (∀ key, .hole key ∈ elements → IsUnmarked key) ∧
      (∀ s ∈ literals elements, ¬ ['#', '\x7b'] <:+: s.toList) ∧
      (∀ name value : String, params[fragmentKey name]? = some value →
        IsUnmarked name ∧ IsUnmarked value ∧ value ≠ "") ∧
      expand params "\x7b##\x7bb\x7d\x7ba\x7d#\x7ba\x7d#\x7bc\x7d##\x7bb\x7d" =
        "\x7b#-i 'x y'\x7ba\x7db#\x7bc\x7d#-i 'x y'" ∧
      [("b", "-i 'x y'"), ("a", "b")].foldl splice
          "\x7b##\x7bb\x7d\x7ba\x7d#\x7ba\x7d#\x7bc\x7d##\x7bb\x7d" =
        "\x7b#-i 'x y'\x7ba\x7db#\x7bc\x7d#-i 'x y'" := by
  intro elements params
  have hkeys : ∀ key, .hole key ∈ elements → IsUnmarked key := by
    simp only [elements, List.mem_cons, Element.hole.injEq, reduceCtorEq, List.not_mem_nil, or_false,
      false_or]
    rintro key (rfl | rfl | rfl | rfl) <;> decide
  have htexts : ∀ s ∈ literals elements, ¬ ['#', '\x7b'] <:+: s.toList := by decide
  have hfragments (name value : String) (h : params[fragmentKey name]? = some value) :
      IsUnmarked name ∧ IsUnmarked value ∧ value ≠ "" := by
    rw [← mem_fragments_iff] at h
    have hall : ∀ f ∈ fragments params, IsUnmarked f.1 ∧ IsUnmarked f.2 ∧ f.2 ≠ "" := by
      decide +kernel
    exact hall _ h
  have horder : [("b", "-i 'x y'"), ("a", "b")].Perm (fragments params) := by decide +kernel
  obtain ⟨hexpand, hsame⟩ := expand_written hkeys htexts hfragments
  have hspliced : String.join (elements.map (Element.spliced params)) =
      "\x7b#-i 'x y'\x7ba\x7db#\x7bc\x7d#-i 'x y'" := by decide +kernel
  rw [hspliced] at hexpand
  exact ⟨hkeys, htexts, hfragments, hexpand, (hsame _ horder).trans hexpand⟩

/-- A line between blanks takes in the words of a fragment, and keeps its own. -/
theorem tokenize_expand {name value before after : String}
    {wordsBefore words wordsAfter : List String}
    (hname : ∀ c ∈ name.toList, Text.isBlank c = false)
    (hvalue : params[fragmentKey name]? = some value)
    (honly : ∀ other, fragmentKey other ∈ params → other = name)
    (hbefore : ¬ (placeholder name).toList <:+: before.toList)
    (hafter : ¬ (placeholder name).toList <:+: after.toList)
    (hwordsBefore : Words.tokenize before = .ok wordsBefore)
    (hwords : Words.tokenize value = .ok words)
    (hwordsAfter : Words.tokenize after = .ok wordsAfter) :
    Words.tokenize (expand params (before ++ " " ++ placeholder name ++ " " ++ after)) =
      .ok (wordsBefore ++ words ++ wordsAfter) := by
  have hblank : ' ' ∉ (placeholder name).toList := by
    intro hmem
    rw [toList_placeholder] at hmem
    have hmem' : ' ' ∈ name.toList := by simpa using hmem
    exact absurd (hname _ hmem') (by decide)
  have hline : expand params (before ++ " " ++ placeholder name ++ " " ++ after) =
      before ++ " " ++ (value ++ " " ++ after) := by
    rw [expand, fragments_eq_singleton hvalue honly, List.foldl_cons, List.foldl_nil, splice,
      Text.replaced_append_append rfl hblank, Text.replaced_append_append rfl hblank,
      Text.replaced_of_not_infix hbefore, Text.replaced_of_not_infix hafter]
    change before ++ " " ++ splice (placeholder name) (name, value) ++ " " ++ after = _
    simp only [splice_placeholder, String.append_assoc]
  rw [Words.tokenize_eq_ok_iff] at hwordsBefore hwords hwordsAfter ⊢
  rw [hline, Words.ofLine?_append hwordsBefore, Words.ofLine?_append hwords, hwordsAfter]
  simp

/-- The fragment has its own placeholder and a backslash at its end, and so has the text in
front of it; a quote is behind. -/
theorem tokenize_expand_repeated :
    let params : Parameters := Std.TreeMap.ofList [("ffmpeg.command.x", "#\x7bx\x7d 'a b'\\"),
      ("ffmpeg.commandx", "ignored")]
    (∀ c ∈ "x".toList, Text.isBlank c = false) ∧
      params[fragmentKey "x"]? = some "#\x7bx\x7d 'a b'\\" ∧
      (∀ other, fragmentKey other ∈ params → other = "x") ∧
      (¬ (placeholder "x").toList <:+: "-y \\".toList) ∧
      (¬ (placeholder "x").toList <:+: "'c d'".toList) ∧
      Words.tokenize "-y \\" = .ok ["-y", "\\"] ∧
      Words.tokenize "#\x7bx\x7d 'a b'\\" = .ok ["#\x7bx\x7d", "a b\\"] ∧
      Words.tokenize "'c d'" = .ok ["c d"] ∧
      Words.tokenize (expand params ("-y \\" ++ " " ++ placeholder "x" ++ " " ++ "'c d'")) =
        .ok ["-y", "\\", "#\x7bx\x7d", "a b\\", "c d"] := by
  intro params
  have hname : ∀ c ∈ "x".toList, Text.isBlank c = false := by
    intro c hc
    obtain rfl : c = 'x' := by simpa using hc
    decide
  have hvalue : params[fragmentKey "x"]? = some "#\x7bx\x7d 'a b'\\" := by decide +kernel
  have honly (other : String) (h : fragmentKey other ∈ params) : other = "x" := by
    have hall : ∀ f ∈ fragments params, f.1 = "x" := by decide +kernel
    obtain ⟨value, hother⟩ := Option.isSome_iff_exists.1 (Std.TreeMap.mem_iff_isSome_getElem?.1 h)
    exact hall _ (mem_fragments_iff.2 hother)
  have hbefore : ¬ (placeholder "x").toList <:+: "-y \\".toList := by decide
  have hafter : ¬ (placeholder "x").toList <:+: "'c d'".toList := by decide
  have hfront : Words.tokenize "-y \\" = .ok ["-y", "\\"] := by rfl
  have hwords : Words.tokenize "#\x7bx\x7d 'a b'\\" = .ok ["#\x7bx\x7d", "a b\\"] := by rfl
  have hback : Words.tokenize "'c d'" = .ok ["c d"] := by rfl
  exact ⟨hname, hvalue, honly, hbefore, hafter, hfront, hwords, hback,
    tokenize_expand hname hvalue honly hbefore hafter hfront hwords hback⟩

end Montage.Template
