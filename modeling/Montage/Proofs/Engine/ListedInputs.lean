import Mathlib.Data.List.Forall2
import Montage.Proofs.AbsolutePath
import Montage.Proofs.Engine.TrackList
import Montage.Proofs.Text.Lines
import Montage.Proofs.Text.Replacement
import Montage.Proofs.Words.ReadBack

/-!
# The inputs that a list names

A reader of a list takes it line by line, and looks for a file with a relative
path in the directory of the list. An input that is given with a relative path is
meant from the working directory on. So a list names the inputs exactly if it is
in the working directory or their paths are absolute; and a path must not be empty
or hold a line feed, since no line names such a one.
-/

namespace Montage

open Workbench Disk

/-! ## Lines of a list -/

namespace Concat

def listLine (input : ConcatInput) : String :=
  "file '" ++ Text.replaced "'" "'\\''" input.path.text ++ "'"

/-- The path that a line of a list names. -/
def listedPath? (line : String) : Option Path :=
  match Words.ofLine? line with
  | some ["file", path] => some ⟨path⟩
  | _ => none

theorem listEntry_eq (input : ConcatInput) : listEntry input = listLine input ++ "\n" := by
  simp [listEntry, listLine, ← String.toList_inj]

theorem count_listLine (input : ConcatInput) :
    (listLine input).toList.count '\n' = input.path.text.toList.count '\n' := by
  have hreplaced : (Text.replaced "'" "'\\''" input.path.text).toList.count '\n' =
      input.path.text.toList.count '\n' := by
    rw [Text.replaced, String.toList_ofList]
    exact Text.count_replaceFrom (by decide) (by decide) 0 _
  rw [listLine, String.toList_append, String.toList_append, List.count_append, List.count_append,
    hreplaced]
  simp

theorem listedPath?_listLine (input : ConcatInput) :
    listedPath? (listLine input) = some input.path := by
  have hfile : Words.ofLine? "file" = some ["file"] := by decide
  have hline : listLine input =
      "file" ++ " " ++ ("'" ++ Text.replaced "'" "'\\''" input.path.text ++ "'") := by
    simp [listLine, ← String.toList_inj]
  have hpath : ("'" ++ Text.replaced "'" "'\\''" input.path.text ++ "'").toList =
      '\'' :: (Text.replaceFrom '\'' [] ['\'', '\\', '\'', '\''] 0 input.path.text.toList ++
        ['\'']) := by
    simp [Text.replaced, Text.replaceAll]
  have hwords : Words.ofLine? (listLine input) = some ["file", input.path.text] := by
    rw [hline, Words.ofLine?_append hfile, Words.ofLine?, hpath, Words.scan, scan_single_replaced]
    simp [Words.scan, Words.Scan.begun, Words.Scan.done, Words.Scan.words]
  simp [listedPath?, hwords]

theorem lines_fileList {inputs : List ConcatInput}
    (h : ∀ input ∈ inputs, '\n' ∉ input.path.text.toList) :
    Text.lines (fileList inputs) = inputs.map listLine := by
  have hentries : inputs.map listEntry = (inputs.map listLine).map (· ++ "\n") := by
    rw [List.map_map]
    exact List.map_congr_left fun input _ => listEntry_eq input
  have hfeeds : ∀ line ∈ inputs.map listLine, '\n' ∉ line.toList := by
    intro line hline
    obtain ⟨input, hinput, rfl⟩ := List.mem_map.1 hline
    rw [← List.count_eq_zero, count_listLine, List.count_eq_zero]
    exact h input hinput
  rw [fileList, hentries, Text.lines_join hfeeds, List.map_map]
  apply List.map_congr_left
  intro input _
  have hquote : (listLine input).toList =
      ("file '" ++ Text.replaced "'" "'\\''" input.path.text).toList ++ ['\''] := by
    simp [listLine]
  have hlast : (listLine input).toList.getLast? ≠ some '\r' := by
    rw [hquote, List.getLast?_concat]
    decide
  rw [Function.comp, Text.dropReturn_of_getLast? hlast, String.ofList_toList]

theorem count_fileList (inputs : List ConcatInput) :
    (fileList inputs).toList.count '\n' =
      inputs.length + (inputs.map fun input => input.path.text.toList.count '\n').sum := by
  induction inputs with
  | nil => rfl
  | cons input inputs ih =>
    have hentry : (listEntry input).toList.count '\n' = input.path.text.toList.count '\n' + 1 := by
      rw [listEntry_eq, String.toList_append, List.count_append, count_listLine]
      rfl
    rw [fileList] at ih
    rw [fileList, List.map_cons, String.join_cons, String.toList_append, List.count_append, ih,
      hentry, List.length_cons, List.map_cons, List.sum_cons]
    omega

/-- The line names the input: from the directory of the list on it leads where the input's path
leads from the working directory on. -/
def namesInput (directory cwd : Path) (line : String) (input : ConcatInput) : Bool :=
  match listedPath? line, Path.absolute? cwd input.path with
  | some listed, some absolute => (directory.join listed).same absolute
  | _, _ => false

theorem namesInput_listLine_iff {directory cwd : Path} (hdirectory : directory.text ≠ "")
    (input : ConcatInput) : namesInput directory cwd (listLine input) input = true ↔
      input.path.text ≠ "" ∧
        (input.path.isAbsolute = true ∨ directory.components = cwd.components) := by
  unfold namesInput
  rw [listedPath?_listLine]
  cases habsolute : Path.absolute? cwd input.path with
  | none =>
    have hempty : input.path.text = "" := by
      by_contra hne
      rw [Path.absolute?, if_neg hne] at habsolute
      cases habsolute
    simp [hempty]
  | some absolute =>
    have hne : input.path.text ≠ "" := by
      intro hempty
      rw [Path.absolute?, if_pos hempty] at habsolute
      cases habsolute
    simp [hne, Path.same_absolute_iff hdirectory habsolute]

/-- The lines of the list name the inputs one by one. -/
theorem forall₂_lines_iff {directory cwd : Path} (hdirectory : directory.text ≠ "")
    (inputs : List ConcatInput) :
    List.Forall₂ (fun line input => namesInput directory cwd line input = true)
        (Text.lines (fileList inputs)) inputs ↔
      ∀ input ∈ inputs, '\n' ∉ input.path.text.toList ∧ input.path.text ≠ "" ∧
        (input.path.isAbsolute = true ∨ directory.components = cwd.components) := by
  have hnames (hfeeds : ∀ input ∈ inputs, '\n' ∉ input.path.text.toList) :
      List.Forall₂ (fun line input => namesInput directory cwd line input = true)
          (Text.lines (fileList inputs)) inputs ↔
        ∀ input ∈ inputs, input.path.text ≠ "" ∧
          (input.path.isAbsolute = true ∨ directory.components = cwd.components) := by
    rw [lines_fileList hfeeds, List.forall₂_map_left_iff, List.forall₂_same]
    exact forall₂_congr fun input _ => namesInput_listLine_iff hdirectory input
  constructor
  · intro h
    -- a line feed in a path makes one line more than there are inputs
    have hfeeds : ∀ input ∈ inputs, '\n' ∉ input.path.text.toList := by
      have hlength : (Text.lines (fileList inputs)).length = inputs.length := h.length_eq
      have hcount := Text.count_le_length_linesOf (fileList inputs).toList
      rw [Text.lines, List.length_map] at hlength
      rw [hlength, count_fileList] at hcount
      intro input hinput hfeed
      have hmore : 0 < (inputs.map fun i => i.path.text.toList.count '\n').sum :=
        List.sum_pos_iff_exists_pos_nat.2
          ⟨_, List.mem_map_of_mem hinput, List.count_pos_iff.2 hfeed⟩
      omega
    exact fun input hinput => ⟨hfeeds input hinput, (hnames hfeeds).1 h input hinput⟩
  · intro h
    exact (hnames fun input hinput => (h input hinput).1).2 fun input hinput => (h input hinput).2

end Concat

/-! ## Lists on a disk -/

theorem Disk.isAbsolute_rooted (d : Disk) (directory : Path) :
    (d.rooted directory).isAbsolute = true := by
  unfold rooted
  split
  · assumption
  · apply Path.isAbsolute_join
    refine List.isPrefixOf_iff_prefix.2 ⟨("/".intercalate d.workingDirectory).toList, ?_⟩
    simp [cwd, pathOf]

theorem TrackList.isName_temporaryName {mark : String} (h : '/' ∉ mark.toList) :
    Path.IsName (temporaryName "tracklist" "txt" mark) := by
  constructor
  · simp [temporaryName, h]
  · exact ⟨'t', by simp [temporaryName], by decide⟩

theorem TrackList.exists_parent_path {w : Workbench} {mark : String} (h : '/' ∉ mark.toList) :
    ∃ directory, (path w mark).parent? = some directory ∧ directory.text ≠ "" ∧
      directory.components = (w.disk.rooted w.settings.temporary).components := by
  have hname := isName_temporaryName h
  obtain ⟨directory, hparent, hcomponents⟩ :=
    (w.disk.rooted w.settings.temporary).exists_parent_join hname.pieces_eq hname.isIdle
  refine ⟨directory, hparent, ?_, hcomponents⟩
  intro hempty
  rw [Path.components_of_text_eq_empty hempty,
    Path.components_of_isAbsolute (isAbsolute_rooted _ _)] at hcomponents
  cases hcomponents

namespace ConcatRequest

variable {request : ConcatRequest} {w v : Workbench} {list : Path}

/-- The list that is written for a concatenation names the inputs, line by line, exactly if no
path is empty or holds a line feed, and the paths are absolute or the directory for temporary
files is the working directory. -/
theorem list_names_inputs_iff (hcodec : request.sameCodec = true)
    (hmarks : ∀ mark ∈ w.marks, '/' ∉ mark.toList)
    (h : request.prepareList.outcome w = (.ok (some list), v)) :
    ∃ directory, list.parent? = some directory ∧
      directory.components = (w.disk.rooted w.settings.temporary).components ∧
      v.disk.find? list = some (.file (Concat.fileList request.inputs).toUTF8) ∧
      (List.Forall₂ (fun line input => Concat.namesInput directory w.disk.cwd line input = true)
          (Text.lines (Concat.fileList request.inputs)) request.inputs ↔
        ∀ input ∈ request.inputs, '\n' ∉ input.path.text.toList ∧ input.path.text ≠ "" ∧
          (input.path.isAbsolute = true ∨
            (w.disk.rooted w.settings.temporary).components = w.disk.cwd.components)) := by
  obtain ⟨R, hlisted⟩ := isListed_of_prepareList hcodec h
  obtain ⟨mark, hmark, rfl⟩ := hlisted.place
  obtain ⟨directory, hparent, hne, hcomponents⟩ :=
    TrackList.exists_parent_path (w := w) (hmarks mark hmark)
  refine ⟨directory, hparent, hcomponents, find?_of_endsAt hlisted.entry hlisted.text, ?_⟩
  rw [← hcomponents]
  exact Concat.forall₂_lines_iff hne request.inputs

/-- A relative path is listed for a list in the working directory, and an apostrophe in an
absolute one does no harm. -/
theorem list_names_inputs_beside :
    let request : ConcatRequest :=
      { inputs := [⟨⟨"/in/it's.mp4"⟩, true, true⟩, ⟨⟨"./b.mp4"⟩, true, true⟩], sameCodec := true }
    let w : Workbench :=
      { settings := { temporaryDirectory := some ⟨"/work/."⟩ }
        disk := ({ workingDirectory := ["work"] } : Disk).put ["work"] .directory
        ids := fun _ => "id", marks := ["x"] }
    let prepared := request.prepareList.outcome w
    request.sameCodec = true ∧ (∀ mark ∈ w.marks, '/' ∉ mark.toList) ∧
      prepared.1.toOption = some (some ⟨"/work/./tracklist_x.txt"⟩) ∧
      List.Forall₂ (fun line input => Concat.namesInput ⟨"/work"⟩ w.disk.cwd line input = true)
        (Text.lines (Concat.fileList request.inputs)) request.inputs := by
  intro request w prepared
  have hmarks : ∀ mark ∈ w.marks, '/' ∉ mark.toList := by decide
  have hmade : prepared.1.toOption = some (some ⟨"/work/./tracklist_x.txt"⟩) := by decide +kernel
  have hprepared : request.prepareList.outcome w =
      (.ok (some ⟨"/work/./tracklist_x.txt"⟩), prepared.2) :=
    Prod.ext (mem_toOption_iff.1 hmade) rfl
  obtain ⟨directory, hparent, _, _, hnames⟩ := list_names_inputs_iff rfl hmarks hprepared
  have hdirectory : (Path.mk "/work/./tracklist_x.txt").parent? = some ⟨"/work"⟩ := by
    decide +kernel
  rw [hdirectory] at hparent
  obtain rfl := Option.some.inj hparent
  exact ⟨rfl, hmarks, hmade, hnames.2 (by decide +kernel)⟩

/-- In another directory than the working directory relative paths lead elsewhere. -/
theorem list_names_other_files :
    let request : ConcatRequest :=
      { inputs := [⟨⟨"a.mp4"⟩, true, true⟩, ⟨⟨"b.mp4"⟩, true, true⟩], sameCodec := true }
    let w : Workbench := { ids := fun _ => "id", marks := ["x"] }
    let prepared := request.prepareList.outcome w
    let lines := Text.lines (Concat.fileList request.inputs)
    prepared.1.toOption = some (some ⟨"/tmp/tracklist_x.txt"⟩) ∧
      Path.parent? ⟨"/tmp/tracklist_x.txt"⟩ = some ⟨"/tmp"⟩ ∧ w.disk.cwd = ⟨"/"⟩ ∧
      lines.map Concat.listedPath? = [some ⟨"a.mp4"⟩, some ⟨"b.mp4"⟩] ∧
      (request.inputs.map fun input => Path.join ⟨"/tmp"⟩ input.path) =
        [⟨"/tmp/a.mp4"⟩, ⟨"/tmp/b.mp4"⟩] ∧
      (request.inputs.map fun input => Path.absolute? ⟨"/"⟩ input.path) =
        [some ⟨"/a.mp4"⟩, some ⟨"/b.mp4"⟩] ∧
      (∀ line ∈ lines, ∀ input ∈ request.inputs,
        Concat.namesInput ⟨"/tmp"⟩ ⟨"/"⟩ line input = false) := by
  decide +kernel

end ConcatRequest

end Montage
