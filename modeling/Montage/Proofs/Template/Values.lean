import Montage.Proofs.CommandText

/-!
# Values stay in their words

A word of a command line is resolved on its own. So what becomes of it depends on the values
of its placeholders alone (`substitute_congr`), and if they all have something to show then
which words become arguments does not depend on the values at all (`arguments_eq_map`).
-/

namespace Montage.Template

def Piece.key? : Piece → Option String
  | literal _ => none
  | hole key => some (String.ofList key)

def keys (text : String) : List String := (pieces text.toList).filterMap Piece.key?

variable {params params' : Parameters} {text value key : String} {words : List String}

theorem mem_keys_iff : key ∈ keys text ↔ .hole key.toList ∈ pieces text.toList := by
  rw [keys, List.mem_filterMap]
  constructor
  · rintro ⟨piece, hpiece, hkey⟩
    cases piece with
    | literal c => cases hkey
    | hole cs =>
      cases hkey
      rwa [String.toList_ofList]
  · intro hpiece
    exact ⟨_, hpiece, congrArg some String.ofList_toList⟩

/-- Only the values of its own placeholders matter to a text. -/
theorem substitute_congr (h : ∀ key ∈ keys text, params[key]? = params'[key]?) :
    substitute params text = substitute params' text := by
  rw [substitute, substitute]
  congr 1
  apply List.flatMap_congr
  intro piece hpiece
  cases piece with
  | literal c => rfl
  | hole key =>
    have hkey : String.ofList key ∈ keys text := by rwa [mem_keys_iff, String.toList_ofList]
    rw [Piece.resolve, Piece.resolve, h _ hkey]

theorem infix_substitute (hkey : key ∈ keys text) (hvalue : params[key]? = some value) :
    value.toList <:+: (substitute params text).toList := by
  obtain ⟨before, after, hpieces⟩ := List.append_of_mem (mem_keys_iff.1 hkey)
  rw [substitute, String.toList_ofList, hpieces, List.flatMap_append, List.flatMap_cons,
    Piece.resolve, String.ofList_toList, hvalue]
  exact List.infix_append' _ _ _

/-- All placeholders have a value to show; the space needs none. -/
def AreFilled (params : Parameters) (words : List String) : Prop :=
  ∀ word ∈ words, ∀ key ∈ keys word, key ≠ spaceKey →
    ∃ value ∈ params[key]?, Text.isBlankText value = false

instance (params : Parameters) (words : List String) : Decidable (AreFilled params words) :=
  inferInstanceAs (Decidable (∀ word ∈ words, ∀ key ∈ keys word, key ≠ spaceKey →
    ∃ value ∈ params[key]?, Text.isBlankText value = false))

/-- The word has a placeholder for a value, or else it has text of its own. -/
def isKept (word : String) : Bool :=
  (keys word).any (· != spaceKey) || !Text.isBlankText (substitute ∅ word)

theorem isBlankText_substitute (hspace : params[spaceKey]? = none)
    (hfilled : ∀ key ∈ keys text, key ≠ spaceKey →
      ∃ value ∈ params[key]?, Text.isBlankText value = false) :
    (!Text.isBlankText (substitute params text)) = isKept text := by
  rw [isKept]
  by_cases hkey : ∃ key ∈ keys text, key ≠ spaceKey
  · obtain ⟨key, hkey, hne⟩ := hkey
    obtain ⟨value, hvalue, hblank⟩ := hfilled key hkey hne
    rw [Text.isBlankText, List.all_eq_false] at hblank
    obtain ⟨c, hc, hshown⟩ := hblank
    rw [Text.not_isBlankText_of_mem ((infix_substitute hkey hvalue).subset hc) (by simpa using hshown),
      List.any_eq_true.2 ⟨key, hkey, by simpa using hne⟩]
    rfl
  · have hsame : substitute params text = substitute ∅ text := by
      apply substitute_congr
      intro key hmem
      obtain rfl : key = spaceKey := by
        by_contra hne
        exact hkey ⟨key, hmem, hne⟩
      rw [hspace, Std.TreeMap.getElem?_emptyc]
    have hnone : (keys text).any (· != spaceKey) = false := by
      rw [List.any_eq_false]
      simpa using hkey
    rw [hsame, hnone, Bool.false_or]

/-- Where all placeholders are filled, the values do not decide which words there are. -/
theorem arguments_eq_map (hspace : params[spaceKey]? = none) (hfilled : AreFilled params words) :
    arguments params words = (words.filter isKept).map (substitute params) := by
  have hkept : words.filter ((!Text.isBlankText ·) ∘ substitute params) = words.filter isKept := by
    apply List.filter_congr
    intro word hword
    have hshown := isBlankText_substitute hspace (hfilled word hword)
    rw [Function.comp_apply, hshown]
  rw [arguments, List.filter_map, hkept]

end Montage.Template
