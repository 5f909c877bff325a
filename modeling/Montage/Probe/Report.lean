import Montage.Json.Reading
import Montage.Json.Record

/-!
# The report of a prober

A prober describes a media file as a record of its streams and its container.
Only a few fields matter here, but a report counts only if all fields have their
types, since otherwise it is not the report of this prober.
-/

namespace Montage.Probe

def texts : List String → Json.Schema := Json.fieldsOf .nowhere Json.isText

def integers : List String → Json.Schema := Json.fieldsOf .nowhere Json.isInteger

def nullableTexts : List String → Json.Schema :=
  Json.fieldsOf .inObject (Json.isNullOr Json.isText)

def nullableIntegers : List String → Json.Schema :=
  Json.fieldsOf .inObject (Json.isNullOr Json.isInteger)

/-- What a stream is meant for, as flags. -/
def dispositionSchema : Json.Schema :=
  integers
    ["default", "dub", "original", "comment", "lyrics", "karaoke", "forced", "hearing_impaired",
     "visual_impaired", "clean_effects", "attached_pic", "timed_thumbnails"]

def streamTagSchema : Json.Schema :=
  nullableTexts ["language", "creation_time", "handler_name", "encoder"]

/-- What comes with a stream besides its frames. -/
def sideDataSchema : Json.Schema := texts ["side_data_type"]

def streamSchema : Json.Schema :=
  integers ["index"] ++
  nullableTexts
    ["codec_name", "sample_aspect_ratio", "display_aspect_ratio", "color_range", "color_space",
     "bits_per_raw_sample", "channel_layout", "max_bit_rate", "nb_frames", "nb_read_frames",
     "codec_long_name", "codec_type", "codec_time_base"] ++
  texts ["codec_tag_string", "codec_tag"] ++
  nullableTexts ["sample_fmt", "sample_rate"] ++
  nullableIntegers ["channels", "bits_per_sample"] ++
  texts ["r_frame_rate", "avg_frame_rate", "time_base"] ++
  nullableIntegers ["start_pts"] ++
  nullableTexts ["start_time"] ++
  nullableIntegers ["duration_ts"] ++
  nullableTexts ["duration", "bit_rate"] ++
  [⟨"disposition", Json.isRecord dispositionSchema, .nowhere⟩,
   ⟨"tags", Json.isNullOr (Json.isRecord streamTagSchema), .inObject⟩] ++
  nullableTexts ["profile"] ++
  nullableIntegers
    ["width", "height", "coded_width", "coded_height", "closed_captions", "has_b_frames"] ++
  nullableTexts ["pix_fmt"] ++
  nullableIntegers ["level"] ++
  nullableTexts ["chroma_location"] ++
  nullableIntegers ["refs"] ++
  nullableTexts ["is_avc", "nal_length", "nal_length_size", "field_order", "id"] ++
  [⟨"side_data_list", Json.isListOf (Json.isRecord sideDataSchema), .anywhere⟩]

def containerTagSchema : Json.Schema :=
  nullableTexts
    ["WMFSDKNeeded", "DeviceConformanceTemplate", "WMFSDKVersion", "IsVBR", "major_brand",
     "minor_version", "compatible_brands", "creation_time", "encoder"]

def containerSchema : Json.Schema :=
  texts ["filename"] ++
  integers ["nb_streams", "nb_programs"] ++
  texts ["format_name", "format_long_name"] ++
  nullableTexts ["start_time", "duration"] ++
  [⟨"size", Json.isText, .anywhere⟩] ++
  nullableTexts ["bit_rate"] ++
  integers ["probe_score"] ++
  [⟨"tags", Json.isNullOr (Json.isRecord containerTagSchema), .inObject⟩]

def reportSchema : Json.Schema :=
  [⟨"streams", Json.isListOf (Json.isRecord streamSchema), .nowhere⟩,
   ⟨"format", Json.isRecord containerSchema, .nowhere⟩]

structure ReportedStream where
  kind : Option String
  width : Option Int
  height : Option Int
  /-- The average count of frames in a second, as a fraction. -/
  rate : String
  deriving DecidableEq, Repr

structure Report where
  streams : List ReportedStream
  /-- The duration of the container in seconds. -/
  duration : Option String
  deriving DecidableEq, Repr

def stream? (value : Json) : Option ReportedStream := do
  let members ← Json.record? streamSchema value
  return {
    kind := (members.lookup "codec_type").bind Json.text?
    width := (members.lookup "width").bind Json.integer?
    height := (members.lookup "height").bind Json.integer?
    rate := ((members.lookup "avg_frame_rate").bind Json.text?).getD "" }

def Report.ofJson? (value : Json) : Option Report := do
  let members ← Json.record? reportSchema value
  let streams ←
    match members.lookup "streams" with
    | some (.array streams) => streams.mapM stream?
    | _ => none
  let container ← (members.lookup "format").bind (Json.record? containerSchema)
  return { streams, duration := (container.lookup "duration").bind Json.text? }

def Report.ofText? (text : String) : Option Report := (Json.ofText? text).bind ofJson?

end Montage.Probe
