import TmmsServer.Lib.Newest
import TmmsServer.Mmedia.Packet

/-!
# Codec headers

The headers that `CodecHeader` saves, and the one it finds for a player's position.
-/
namespace TmmsServer
open Lib.Newest

namespace Packet

def isVideo (p : Packet) : Bool := p.type &&& kPacketTypeVideo == kPacketTypeVideo
def isAudio (p : Packet) : Bool := p.type == kPacketTypeAudio
def isMeta (p : Packet) : Bool := p.type == kPacketTypeMeta

end Packet

/-- What is kept of one kind: the last header, its version, and all headers in the order they were saved. -/
structure HeaderHistory where
  latest : Option Packet := none
  version : Nat := 0
  packets : List Packet := []
  deriving DecidableEq, Repr

namespace HeaderHistory

def save (h : HeaderHistory) (packet : Packet) : HeaderHistory where
  latest := some packet
  version := h.version + 1
  packets := h.packets ++ [packet]

/-- The last header, or the one for a position behind the first packet. -/
def lookup (h : HeaderHistory) (idx : Int) : Option Packet :=
  if idx ≤ 0 then h.latest else (newest Packet.index idx h.packets).or h.latest

end HeaderHistory

structure CodecHeader where
  videoHeaders : HeaderHistory := {}
  audioHeaders : HeaderHistory := {}
  metas : HeaderHistory := {}
  deriving DecidableEq, Repr

namespace CodecHeader

/-- `Meta` -/
def metaPacket (c : CodecHeader) (idx : Int) : Option Packet := c.metas.lookup idx
def videoHeader (c : CodecHeader) (idx : Int) : Option Packet := c.videoHeaders.lookup idx
def audioHeader (c : CodecHeader) (idx : Int) : Option Packet := c.audioHeaders.lookup idx

def saveMeta (c : CodecHeader) (packet : Packet) : CodecHeader := { c with metas := c.metas.save packet }
def saveAudioHeader (c : CodecHeader) (packet : Packet) : CodecHeader :=
  { c with audioHeaders := c.audioHeaders.save packet }
def saveVideoHeader (c : CodecHeader) (packet : Packet) : CodecHeader :=
  { c with videoHeaders := c.videoHeaders.save packet }

/-- What it returns, and the headers saved then. `ParseMeta` is left out: it logs the fields of a meta packet and
keeps none, but its `Decode` may fault on the packet. -/
def parseCodecHeader (c : CodecHeader) (packet : Packet) : Bool × CodecHeader :=
  if packet.isMeta then (true, c.saveMeta packet)
  else if packet.isAudio then (true, c.saveAudioHeader packet)
  else if packet.isVideo then (true, c.saveVideoHeader packet)
  else (true, c)

/-- A history of calls. -/
def parseAll (c : CodecHeader) (packets : List Packet) : CodecHeader :=
  packets.foldl (fun c packet => (c.parseCodecHeader packet).2) c

end CodecHeader

/-! ## One kind -/

namespace HeaderHistory

/-- What a history of these headers is. -/
structure Holds (h : HeaderHistory) (saved : List Packet) : Prop where
  packets : h.packets = saved
  latest : h.latest = saved.getLast?
  version : h.version = saved.length

/-- The header for a position: the newest one up to it, or the last one where all are behind it. -/
def Finds (saved : List Packet) (idx : Int) (found : Option Packet) : Prop :=
  (∃ pkt, found = some pkt ∧ IsNewest Packet.index idx saved pkt) ∨
    ((∀ pkt ∈ saved, idx < pkt.index) ∧ found = saved.getLast?)

variable {h : HeaderHistory} {saved : List Packet} {packet : Packet} {idx : Int}

theorem holds_empty : ({} : HeaderHistory).Holds [] := ⟨rfl, rfl, rfl⟩

theorem Holds.save (h' : h.Holds saved) (packet : Packet) : (h.save packet).Holds (saved ++ [packet]) := by
  refine ⟨?_, ?_, ?_⟩
  · simp [HeaderHistory.save, h'.packets]
  · simp [HeaderHistory.save]
  · simp [HeaderHistory.save, h'.version]

theorem Holds.finds (h' : h.Holds saved) (hidx : 0 < idx) (hrising : Rising Packet.index saved) :
    Finds saved idx (h.lookup idx) := by
  rw [lookup, if_neg (not_le.mpr hidx), h'.packets]
  cases hfound : newest Packet.index idx saved with
  | some pkt => exact .inl ⟨pkt, rfl, newest_eq_some hrising hfound⟩
  | none => exact .inr ⟨newest_eq_none.mp hfound, h'.latest⟩

end HeaderHistory

/-! ## The three kinds -/

namespace Packet
variable {p : Packet}

theorem isMeta_only (h : p.isMeta = true) : p.isAudio = false ∧ p.isVideo = false := by
  have htype : p.type = kPacketTypeMeta := eq_of_beq h
  simp [isAudio, isVideo, htype, kPacketTypeMeta, kPacketTypeAudio, kPacketTypeVideo]

theorem isAudio_only (h : p.isAudio = true) : p.isVideo = false := by
  have htype : p.type = kPacketTypeAudio := eq_of_beq h
  simp [isVideo, htype, kPacketTypeAudio, kPacketTypeVideo]

end Packet

namespace CodecHeader
open HeaderHistory

/-- Each history holds the packets of its kind. -/
structure Holds (c : CodecHeader) (packets : List Packet) : Prop where
  videoHeaders : c.videoHeaders.Holds (packets.filter Packet.isVideo)
  audioHeaders : c.audioHeaders.Holds (packets.filter Packet.isAudio)
  metas : c.metas.Holds (packets.filter Packet.isMeta)

variable {c : CodecHeader} {packets : List Packet}

/-- A call saves the packet under its own kind. -/
theorem Holds.parse (h : c.Holds packets) (packet : Packet) :
    (c.parseCodecHeader packet).2.Holds (packets ++ [packet]) := by
  obtain ⟨hvideo, haudio, hmeta⟩ := h
  unfold parseCodecHeader
  cases hm : packet.isMeta with
  | true =>
      obtain ⟨ha, hv⟩ := Packet.isMeta_only hm
      refine ⟨?_, ?_, ?_⟩
      · simpa [saveMeta, hv] using hvideo
      · simpa [saveMeta, ha] using haudio
      · simpa [saveMeta, hm] using hmeta.save packet
  | false =>
      cases ha : packet.isAudio with
      | true =>
          have hv := Packet.isAudio_only ha
          refine ⟨?_, ?_, ?_⟩
          · simpa [saveAudioHeader, hv] using hvideo
          · simpa [saveAudioHeader, ha] using haudio.save packet
          · simpa [saveAudioHeader, hm] using hmeta
      | false =>
          cases hv : packet.isVideo with
          | true =>
              refine ⟨?_, ?_, ?_⟩
              · simpa [saveVideoHeader, hv] using hvideo.save packet
              · simpa [saveVideoHeader, ha] using haudio
              · simpa [saveVideoHeader, hm] using hmeta
          | false =>
              refine ⟨?_, ?_, ?_⟩
              · simpa [hv] using hvideo
              · simpa [ha] using haudio
              · simpa [hm] using hmeta

theorem Holds.parseAll {before : List Packet} (h : c.Holds before) (packets : List Packet) :
    (c.parseAll packets).Holds (before ++ packets) := by
  induction packets generalizing c before with
  | nil =>
      rw [List.append_nil]
      exact h
  | cons packet packets ih =>
      have hrest := ih (h.parse packet)
      rw [List.append_assoc] at hrest
      exact hrest

theorem holds_parseAll (packets : List Packet) : (CodecHeader.parseAll {} packets).Holds packets := by
  have hempty : Holds {} [] := ⟨holds_empty, holds_empty, holds_empty⟩
  exact hempty.parseAll packets

/-- For every position, and of every kind, the newest header up to it is found. -/
theorem parseAll_finds {idx : Int} (packets : List Packet)
    (hvideo : Rising Packet.index (packets.filter Packet.isVideo))
    (haudio : Rising Packet.index (packets.filter Packet.isAudio))
    (hmeta : Rising Packet.index (packets.filter Packet.isMeta)) (hidx : 0 < idx) :
    Finds (packets.filter Packet.isVideo) idx ((CodecHeader.parseAll {} packets).videoHeader idx) ∧
      Finds (packets.filter Packet.isAudio) idx ((CodecHeader.parseAll {} packets).audioHeader idx) ∧
        Finds (packets.filter Packet.isMeta) idx ((CodecHeader.parseAll {} packets).metaPacket idx) := by
  obtain ⟨hvideos, haudios, hmetas⟩ := holds_parseAll packets
  exact ⟨hvideos.finds hidx hvideo, haudios.finds hidx haudio, hmetas.finds hidx hmeta⟩

/-- Two video headers around the position, and an audio header behind it. -/
def someHeaders : List Packet := [
  { type := 17, index := 0, capacity := 0 },
  { type := kPacketTypeAudio, index := 9, capacity := 0 },
  { type := 17, index := 8, capacity := 0 }]

theorem parseAll_finds_someHeaders :
    Finds (someHeaders.filter Packet.isVideo) 5 ((CodecHeader.parseAll {} someHeaders).videoHeader 5) ∧
      Finds (someHeaders.filter Packet.isAudio) 5 ((CodecHeader.parseAll {} someHeaders).audioHeader 5) ∧
        Finds (someHeaders.filter Packet.isMeta) 5 ((CodecHeader.parseAll {} someHeaders).metaPacket 5) := by
  refine parseAll_finds someHeaders ?_ ?_ ?_ (by decide)
  all_goals
    unfold Rising
    decide

end CodecHeader
end TmmsServer
