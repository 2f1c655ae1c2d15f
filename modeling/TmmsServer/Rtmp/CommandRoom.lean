import TmmsServer.Rtmp.PairDialogue
import TmmsServer.Rtmp.SessionName

/-!
# Room for the commands of a client

`SendConnect`, `SendPlay` and `SendPublish` write strings of any length into a
packet of 1024 bytes. Which strings leave them inside it.
-/
namespace TmmsServer
open Lib.Words

namespace AMFArgument

/-- The strings behind a length prefix. -/
def strings : AMFArgument → List (List UInt8)
  | string str => [str]
  | _ => []

theorem string_length (str : List UInt8) : (string str).encode.length = 3 + str.length := by
  rw [encode, List.length_cons, body, BytesWriter.writeUint16T, List.length_append, beBytes_length]
  omega

theorem number_length (bits : UInt64) : (number bits).encode.length = 9 := rfl

theorem null_length : null.encode.length = 1 := rfl

theorem mem_strings {a : AMFArgument} {s : List UInt8} (h : s ∈ a.strings) : s.length ≤ a.encode.length := by
  cases a with
  | string str =>
      obtain rfl := List.mem_singleton.mp h
      rw [string_length]
      exact Nat.le_add_left _ _
  | number bits => exact absurd h List.not_mem_nil
  | null => exact absurd h List.not_mem_nil

end AMFArgument

namespace AMFField

def strings : AMFField → List (List UInt8)
  | string name str => [name, str]
  | field => [field.name]

theorem string_length (name str : List UInt8) : (string name str).encode.length = 5 + name.length + str.length := by
  rw [encode_length, body, BytesWriter.writeUint16T, List.length_append, beBytes_length, AMFField.name]
  omega

theorem number_length (name : List UInt8) (bits : UInt64) : (number name bits).encode.length = 11 + name.length := by
  rw [encode_length, body, beBytes_length, AMFField.name]
  omega

theorem boolean_length (name : List UInt8) (b : Bool) : (boolean name b).encode.length = 4 + name.length := by
  rw [encode_length, body, List.length_singleton, AMFField.name]
  omega

theorem mem_strings {f : AMFField} {s : List UInt8} (h : s ∈ f.strings) : s.length ≤ f.encode.length := by
  cases f with
  | string name str =>
      rw [string_length]
      rcases List.mem_pair.mp h with rfl | rfl
      · omega
      · omega
  | number name bits =>
      obtain rfl := List.mem_singleton.mp h
      rw [number_length]
      exact Nat.le_add_left _ _
  | boolean name b =>
      obtain rfl := List.mem_singleton.mp h
      rw [boolean_length]
      exact Nat.le_add_left _ _

end AMFField

namespace AMFPart

def strings : AMFPart → List (List UInt8)
  | argument a => a.strings
  | object fields => fields.flatMap AMFField.strings

theorem mem_strings {p : AMFPart} {s : List UInt8} (h : s ∈ p.strings) : s.length ≤ p.encode.length := by
  cases p with
  | argument a => exact AMFArgument.mem_strings h
  | object fields =>
      obtain ⟨f, hf, hs⟩ := List.mem_flatMap.mp h
      have hfield := AMFField.mem_strings hs
      have hall := length_le_flatMap AMFField.encode hf
      rw [object_length]
      omega

theorem flatMap_argument (args : List AMFArgument) :
    (args.map argument).flatMap encode = args.flatMap AMFArgument.encode := List.flatMap_map ..

end AMFPart

/-- The message has these parts, none of its bytes is behind the end of its packet, and each length prefix is
the length of the string behind it. -/
def StaysInside (built : Checked Packet) (parts : List AMFPart) : Prop :=
  ∃ packet, built = .ok packet ∧ packet.data = parts.flatMap AMFPart.encode ∧
    packet.data.length ≤ packet.capacity ∧ packet.capacity = 1024 ∧
    ∀ part ∈ parts, ∀ s ∈ part.strings, beValue (BytesWriter.writeUint16T (UInt16.ofNat s.length)) = s.length

theorem message_staysInside_iff (header : RtmpMsgHeader) (parts : List AMFPart) :
    StaysInside (newMessage 1024 header (parts.flatMap AMFPart.encode)) parts ↔
      (parts.flatMap AMFPart.encode).length ≤ 1024 := by
  constructor
  · rintro ⟨packet, -, hdata, hroom, hcapacity, -⟩
    rw [← hdata, ← hcapacity]
    exact hroom
  · intro h
    refine ⟨_, newMessage_fits h, rfl, h, rfl, fun part hpart s hs => ?_⟩
    have hs := AMFPart.mem_strings hs
    have hpart := length_le_flatMap AMFPart.encode hpart
    have hsmall : s.length < 2 ^ 16 := by omega
    rw [BytesWriter.writeUint16T, beValue_beBytes, UInt16.toNat_ofNat', Nat.mod_eq_of_lt hsmall]
    exact Nat.mod_eq_of_lt hsmall

theorem connectParts_length (app tcUrl : List UInt8) :
    ((connectParts app tcUrl).flatMap AMFPart.encode).length = 140 + (app.length + tcUrl.length) := by
  have hcommand : (AMFArgument.string (text "connect")).encode.length = 10 := by decide
  have htype : amfObject.length = 1 := rfl
  have hend : amfObjectEnd.length = 3 := rfl
  have happ : (AMFField.string (text "app") app).encode.length = 8 + app.length := AMFField.string_length _ _
  have htcUrl : (AMFField.string (text "tcUrl") tcUrl).encode.length = 10 + tcUrl.length := AMFField.string_length _ _
  have hrest : ([.boolean (text "fpad") false, .number (text "capabilities") (whole 31),
      .number (text "audioCodecs") (whole 1639), .number (text "videoCodecs") (whole 252),
      .number (text "videoFunction") (whole 1)].flatMap AMFField.encode).length = 99 := by decide
  simp only [List.flatMap_cons, List.flatMap_nil, List.append_nil, List.length_append] at hrest
  simp only [connectParts, connectObject, List.flatMap_cons, List.flatMap_nil, List.append_nil, List.length_append,
    AMFPart.encode, hcommand, htype, hend, happ, htcUrl, AMFArgument.number_length]
  omega

theorem playArguments_length (name : List UInt8) :
    ((playArguments name).flatMap AMFArgument.encode).length = 29 + name.length := by
  have hcommand : (AMFArgument.string (text "play")).encode.length = 7 := by decide
  simp only [playArguments, List.flatMap_cons, List.flatMap_nil, List.append_nil, List.length_append, hcommand,
    AMFArgument.string_length, AMFArgument.number_length, AMFArgument.null_length]
  omega

theorem publishArguments_length (name : List UInt8) :
    ((publishArguments name).flatMap AMFArgument.encode).length = 30 + name.length := by
  have hcommand : (AMFArgument.string (text "publish")).encode.length = 10 := by decide
  have hlive : (AMFArgument.string (text "live")).encode.length = 7 := by decide
  simp only [publishArguments, List.flatMap_cons, List.flatMap_nil, List.append_nil, List.length_append, hcommand,
    hlive, AMFArgument.string_length, AMFArgument.number_length, AMFArgument.null_length]
  omega

namespace CommandContext

/-- What `SendConnect`, `SendPlay` and `SendPublish` build stays inside. -/
def ConnectFits (ctx : CommandContext) : Prop :=
  StaysInside (connectMessage ctx.app ctx.tcUrl) (connectParts ctx.app ctx.tcUrl)

def PlayFits (ctx : CommandContext) : Prop :=
  StaysInside (playMessage ctx.name) ((playArguments ctx.name).map .argument)

def PublishFits (ctx : CommandContext) : Prop :=
  StaysInside (publishMessage ctx.name) ((publishArguments ctx.name).map .argument)

theorem connectFits_iff (ctx : CommandContext) :
    ctx.ConnectFits ↔ ctx.app.length + ctx.tcUrl.length ≤ 884 := by
  rw [ConnectFits, connectMessage_eq, message_staysInside_iff, connectParts_length]
  omega

theorem playFits_iff (ctx : CommandContext) : ctx.PlayFits ↔ ctx.name.length ≤ 995 := by
  rw [PlayFits, playMessage_eq, ← AMFPart.flatMap_argument, message_staysInside_iff, AMFPart.flatMap_argument,
    playArguments_length]
  omega

theorem publishFits_iff (ctx : CommandContext) : ctx.PublishFits ↔ ctx.name.length ≤ 994 := by
  rw [PublishFits, publishMessage_eq, ← AMFPart.flatMap_argument, message_staysInside_iff, AMFPart.flatMap_argument,
    publishArguments_length]
  omega

/-- The commands stay inside their packets exactly where the strings are short enough. -/
theorem commandsFit_iff (ctx : CommandContext) :
    (ctx.ConnectFits ↔ ctx.app.length + ctx.tcUrl.length ≤ 884) ∧
      (ctx.PlayFits ↔ ctx.name.length ≤ 995) ∧ (ctx.PublishFits ↔ ctx.name.length ≤ 994) :=
  ⟨ctx.connectFits_iff, ctx.playFits_iff, ctx.publishFits_iff⟩

theorem play_name (ctx : CommandContext) (u : StreamUrl) : (ctx.play u.url).name = u.name.bytes := by
  unfold play parseNameAndTcUrl
  dsimp only
  rw [u.splitString_url]

/-- `rtmp://a/live/` and a name of 1000 bytes. -/
def longUrl : StreamUrl where
  domain := oneStream.domain
  port := none
  app := oneStream.app
  name := ⟨List.replicate 1000 97, nofun, fun h => absurd (List.eq_of_mem_replicate h) (by decide),
    fun h => absurd (List.eq_of_mem_replicate h) (by decide), fun h => absurd (List.eq_of_mem_replicate h) (by decide)⟩

/-- The play command for the long URL runs over the end of its packet. -/
theorem longUrl_overruns : ¬ ∀ url : List UInt8, (({} : CommandContext).play url).ConnectFits ∧
    (({} : CommandContext).play url).PlayFits ∧ (({} : CommandContext).publish url).PublishFits := by
  intro h
  have hplay := (playFits_iff _).mp (h longUrl.url).2.1
  rw [play_name, longUrl, List.length_replicate] at hplay
  exact absurd hplay (by decide)

end CommandContext
end TmmsServer
