import TmmsServer.Net.MsgBuffer

/-!
# `MsgBuffer` as a queue of bytes

The bytes in front of `head_`, the readable ones, and the bytes behind `tail_`
are followed through every operation.
-/
namespace TmmsServer

theorem sizeAdd_eq {a b : Nat} (h : a + b < 2 ^ 64) : sizeAdd a b = a + b := Nat.mod_eq_of_lt h

theorem sizeSub_eq {a b : Nat} (hle : b ≤ a) : sizeSub a b = a - b := if_pos hle

/-- A call runs out of memory, or gives a result of this kind. -/
def Yields {α : Type} (r : Checked α) (P : α → Prop) : Prop :=
  r = .error .badAlloc ∨ ∃ a, r = .ok a ∧ P a

theorem Yields.ok {α : Type} {P : α → Prop} {a : α} (h : P a) : Yields (.ok a) P := .inr ⟨a, rfl, h⟩

theorem Yields.bind {α β : Type} {r : Checked α} {f : α → Checked β} {P : α → Prop} {Q : β → Prop}
    (h : Yields r P) (hf : ∀ a, P a → Yields (f a) Q) : Yields (r >>= f) Q := by
  rcases h with rfl | ⟨a, rfl, ha⟩
  · exact .inl (error_bind _ f)
  · rw [ok_bind]
    exact hf a ha

theorem Yields.mono {α : Type} {r : Checked α} {P Q : α → Prop} (h : Yields r P)
    (hpq : ∀ a, P a → Q a) : Yields r Q := by
  rcases h with h | ⟨a, h, ha⟩
  · exact .inl h
  · exact .inr ⟨a, h, hpq a ha⟩

namespace MsgBuffer

/-- The three parts of the vector. -/
structure Layout (m : MsgBuffer) (front q back : List UInt8) : Prop where
  buffer : m.buffer = front ++ (q ++ back)
  head : m.head = front.length
  tail : m.tail = front.length + q.length
  cap_ge : kBufferOffset ≤ m.initCap
  cap_lt : m.initCap < kMaxVector
  size_ge : kBufferOffset ≤ m.buffer.length
  size_lt : m.buffer.length < kMaxVector

/-- The readable bytes are those of the queue. -/
def Holds (m : MsgBuffer) (q : List UInt8) : Prop := ∃ front back, m.Layout front q back

namespace Layout
variable {m : MsgBuffer} {front q back : List UInt8} (h : m.Layout front q back)
include h

theorem length : front.length + q.length + back.length = m.buffer.length := by
  rw [h.buffer, List.length_append, List.length_append, Nat.add_assoc]

theorem small : front.length + q.length + back.length < 2 ^ 62 := by
  rw [h.length]
  exact h.size_lt

theorem readableBytes : m.readableBytes = q.length := by
  unfold MsgBuffer.readableBytes
  rw [h.head, h.tail, sizeSub_eq (Nat.le_add_right _ _), Nat.add_sub_cancel_left]

theorem writableBytes : m.writableBytes = back.length := by
  unfold MsgBuffer.writableBytes
  rw [h.tail, ← h.length, sizeSub_eq (Nat.le_add_right _ _), Nat.add_sub_cancel_left]

theorem peek : m.peek = .ok q := by
  unfold MsgBuffer.peek
  rw [h.readableBytes, h.buffer, h.head]
  exact readBytes_at rfl rfl

/-- The same parts with the borders elsewhere. -/
theorem recut {m' : MsgBuffer} {front' q' back' : List UInt8}
    (hbuffer : m'.buffer = front' ++ (q' ++ back'))
    (hhead : m'.head = front'.length) (htail : m'.tail = front'.length + q'.length)
    (hcap : m'.initCap = m.initCap)
    (hlen : front'.length + q'.length + back'.length = front.length + q.length + back.length) :
    m'.Layout front' q' back' := by
  have hsize : m'.buffer.length = m.buffer.length := by
    rw [← h.length, hbuffer, List.length_append, List.length_append]
    omega
  exact ⟨hbuffer, hhead, htail, hcap ▸ h.cap_ge, hcap ▸ h.cap_lt, hsize ▸ h.size_ge, hsize ▸ h.size_lt⟩

/-- Bytes are written behind the readable ones. -/
theorem hasWritten {bytes : List UInt8} (hroom : bytes.length ≤ back.length) :
    ∃ m', m.hasWritten bytes = .ok m' ∧ m'.Layout front (q ++ bytes) (back.drop bytes.length) := by
  have hsmall := h.small
  have htake : (back.take bytes.length).length = bytes.length := List.length_take_of_le hroom
  have hsplit : m.buffer = (front ++ q) ++ (back.take bytes.length ++ back.drop bytes.length) := by
    rw [List.take_append_drop, h.buffer, List.append_assoc]
  have hwrite : writeBytes m.buffer m.tail bytes =
      .ok ((front ++ q) ++ (bytes ++ back.drop bytes.length)) := by
    rw [hsplit, h.tail]
    exact writeBytes_at List.length_append htake
  have hrun : m.hasWritten bytes = .ok { m with
      buffer := (front ++ q) ++ (bytes ++ back.drop bytes.length), tail := sizeAdd m.tail bytes.length } := by
    unfold MsgBuffer.hasWritten
    rw [hwrite]
    rfl
  refine ⟨_, hrun, h.recut ?_ h.head ?_ rfl ?_⟩
  · simp only [List.append_assoc]
  · rw [h.tail, sizeAdd_eq (by omega), List.length_append, Nat.add_assoc]
  · rw [List.length_append, List.length_drop]
    omega

/-- The readable bytes move to the front. -/
theorem moveToFront (hfront : kBufferOffset ≤ front.length) :
    ∃ m' front' back', m.moveToFront = .ok m' ∧ m'.Layout front' q back' ∧
      back'.length + kBufferOffset = front.length + back.length := by
  have hsmall := h.small
  have hlen := h.length
  unfold kBufferOffset at hfront
  have hwrite : writeBytes m.buffer 8 q =
      .ok (m.buffer.take 8 ++ (q ++ m.buffer.drop (8 + q.length))) :=
    if_pos (by omega)
  have hrun : m.moveToFront = .ok { m with
      buffer := m.buffer.take 8 ++ (q ++ m.buffer.drop (8 + q.length)), tail := sizeAdd 8 q.length, head := 8 } := by
    have hq : sizeSub m.tail m.head = q.length := h.readableBytes
    unfold MsgBuffer.moveToFront kBufferOffset
    rw [h.peek, ok_bind, hwrite, hq]
    rfl
  have htake : (m.buffer.take 8).length = 8 := List.length_take_of_le (by omega)
  refine ⟨_, _, _, hrun, h.recut rfl htake.symm ?_ rfl ?_, ?_⟩
  · rw [htake]
    exact sizeAdd_eq (by omega)
  · rw [htake, List.length_drop]
    omega
  · rw [List.length_drop, kBufferOffset]
    omega

/-- Bytes are laid down in front of the readable ones. -/
theorem addInFront_front {bytes : List UInt8} (hroom : bytes.length ≤ front.length) :
    ∃ m', m.addInFront bytes = .ok m' ∧ m'.Holds (bytes ++ q) := by
  have hsplit : front = front.take (front.length - bytes.length) ++ front.drop (front.length - bytes.length) :=
    (List.take_append_drop _ _).symm
  have hdrop : (front.drop (front.length - bytes.length)).length = bytes.length := by
    rw [List.length_drop]
    omega
  have htake : (front.take (front.length - bytes.length)).length = front.length - bytes.length :=
    List.length_take_of_le (Nat.sub_le _ _)
  have hwrite : writeBytes m.buffer (m.head - bytes.length) bytes =
      .ok (front.take (front.length - bytes.length) ++ (bytes ++ (q ++ back))) := by
    rw [h.buffer, h.head]
    nth_rewrite 1 [hsplit]
    rw [List.append_assoc]
    exact writeBytes_at htake hdrop
  have hrun : m.addInFront bytes = .ok { m with
      buffer := front.take (front.length - bytes.length) ++ (bytes ++ (q ++ back))
      head := m.head - bytes.length } := by
    unfold MsgBuffer.addInFront
    rw [if_pos (by rw [h.head]; exact hroom), hwrite]
    rfl
  refine ⟨_, hrun, front.take (front.length - bytes.length), back, h.recut ?_ ?_ ?_ rfl ?_⟩
  · rw [List.append_assoc]
  · rw [htake]
    exact congrArg (· - bytes.length) h.head
  · rw [htake, List.length_append]
    refine h.tail.trans ?_
    omega
  · rw [htake, List.length_append]
    omega

/-- The readable bytes make room for those in front. -/
theorem addInFront_back {bytes : List UInt8} (hfront : front.length < bytes.length)
    (hroom : bytes.length ≤ back.length) : ∃ m', m.addInFront bytes = .ok m' ∧
    m'.Holds (bytes ++ q) := by
  have hsmall := h.small
  have hlen := h.length
  have hmove : writeBytes m.buffer (m.head + bytes.length) q =
      .ok (front ++ ((q ++ back).take bytes.length ++
      (q ++ back.drop bytes.length))) := by
    have hfit : m.head + bytes.length + q.length ≤ m.buffer.length := by
      rw [h.head, ← hlen]
      omega
    refine (if_pos hfit).trans (congrArg Except.ok ?_)
    have hback : m.buffer.drop (m.head + bytes.length + q.length) = back.drop bytes.length := by
      rw [h.buffer, h.head, Nat.add_assoc, ← List.drop_drop, List.drop_left, Nat.add_comm,
        ← List.drop_drop, List.drop_left]
    have hkeep : m.buffer.take (m.head + bytes.length) =
        front ++ (q ++ back).take bytes.length := by
      rw [h.buffer, h.head, List.take_append, List.take_of_length_le (Nat.le_add_right _ _),
        Nat.add_sub_cancel_left]
    rw [hback, hkeep, List.append_assoc]
  have hx : ((q ++ back).take bytes.length).length = bytes.length :=
    List.length_take_of_le (by rw [List.length_append]; omega)
  have hwrite : writeBytes (front ++ ((q ++ back).take bytes.length ++ (q ++ back.drop bytes.length))) m.head bytes =
      .ok (front ++ (bytes ++ (q ++ back.drop bytes.length))) := writeBytes_at h.head.symm hx
  have hrun : m.addInFront bytes = .ok { m with
      buffer := front ++ (bytes ++ (q ++ back.drop bytes.length)), tail := sizeAdd m.tail bytes.length } := by
    unfold MsgBuffer.addInFront
    rw [if_neg (by rw [h.head]; exact Nat.not_le.mpr hfront),
      if_pos (by rw [h.writableBytes]; exact hroom), h.peek, ok_bind, hmove, ok_bind, hwrite]
    rfl
  refine ⟨_, hrun, front, back.drop bytes.length, h.recut ?_ h.head ?_ rfl ?_⟩
  · simp only [List.append_assoc]
  · change sizeAdd m.tail bytes.length = _
    rw [h.tail, sizeAdd_eq (by omega), List.length_append]
    omega
  · rw [List.length_append, List.length_drop]
    omega

theorem retrieve_part {len : Nat} (hlen : len < q.length) :
    ({ m with head := sizeAdd m.head len } : MsgBuffer).Holds (q.drop len) := by
  have hsmall := h.small
  have htake : (q.take len).length = len := List.length_take_of_le (Nat.le_of_lt hlen)
  refine ⟨front ++ q.take len, back, h.recut ?_ ?_ ?_ rfl ?_⟩
  · rw [List.append_assoc, ← List.append_assoc (q.take len), List.take_append_drop]
    exact h.buffer
  · rw [h.head, sizeAdd_eq (by omega), List.length_append, htake]
  · rw [List.length_append, htake, List.length_drop]
    refine h.tail.trans ?_
    omega
  · rw [List.length_append, htake, List.length_drop]
    omega

theorem unwrite {offset : Nat} (hoff : offset ≤ q.length) :
    (m.unwrite offset).Holds (q.take (q.length - offset)) := by
  have hsmall := h.small
  have htake : (q.take (q.length - offset)).length = q.length - offset :=
    List.length_take_of_le (Nat.sub_le _ _)
  refine ⟨front, q.drop (q.length - offset) ++ back, h.recut ?_ h.head ?_ rfl ?_⟩
  · rw [← List.append_assoc (q.take _), List.take_append_drop]
    exact h.buffer
  · change sizeSub m.tail offset = _
    rw [h.tail, sizeSub_eq (by omega), htake]
    omega
  · rw [htake, List.length_append, List.length_drop]
    omega

/-- The vector shrinks, or stays. -/
theorem retrieveAll : ∃ m', m.retrieveAll = .ok m' ∧ m'.Holds [] := by
  have hcap := h.cap_lt
  have hge := h.cap_ge
  have hsize := h.size_ge
  unfold kMaxVector at hcap
  have hlay : ∀ buffer : List UInt8, kBufferOffset ≤ buffer.length → buffer.length < kMaxVector →
      ({ m with buffer, tail := kBufferOffset, head := kBufferOffset } : MsgBuffer).Holds [] := by
    intro buffer hbuffer hlt
    have htake : (buffer.take kBufferOffset).length = kBufferOffset :=
      List.length_take_of_le hbuffer
    refine ⟨buffer.take kBufferOffset, buffer.drop kBufferOffset, ?_, htake.symm, ?_, hge, h.cap_lt, hbuffer, hlt⟩
    · rw [List.nil_append, List.take_append_drop]
    · rw [htake]
      rfl
  unfold MsgBuffer.retrieveAll
  rw [Nat.mod_eq_of_lt (by omega)]
  split
  next hshrink =>
    have hle : m.initCap ≤ m.buffer.length := by omega
    have hlength : (m.buffer.take m.initCap).length = m.initCap := List.length_take_of_le hle
    refine ⟨_, ?_, hlay (m.buffer.take m.initCap) (by rw [hlength]; exact hge) (by rw [hlength]; exact h.cap_lt)⟩
    unfold resizeVector
    rw [if_pos hle]
    rfl
  next => exact ⟨_, rfl, hlay m.buffer hsize h.size_lt⟩

end Layout

theorem new_spec {len : Nat} (hlen : kBufferOffset ≤ len) (hwrap : len + kBufferOffset < 2 ^ 64) :
    Yields (new len) fun m => ∃ front back, m.Layout front [] back ∧ back.length = len := by
  unfold new newVector
  rw [sizeAdd_eq hwrap]
  by_cases hmax : len + kBufferOffset < kMaxVector
  · rw [if_pos hmax, ok_bind]
    refine .ok ⟨List.replicate kBufferOffset 0, List.replicate len 0, ?_, List.length_replicate⟩
    refine ⟨?_, rfl, rfl, hlen, Nat.lt_of_le_of_lt (Nat.le_add_right _ _) hmax, ?_, ?_⟩
    · rw [List.nil_append, List.replicate_append_replicate, Nat.add_comm]
    · rw [List.length_replicate]
      exact Nat.le_add_left _ _
    · rw [List.length_replicate]
      exact hmax
  · rw [if_neg hmax]
    exact .inl rfl

section Calls
variable {m other : MsgBuffer} {q o bytes : List UInt8} {len : Nat}

theorem Holds.readableBytes (h : m.Holds q) : m.readableBytes = q.length := by
  obtain ⟨front, back, h⟩ := h
  exact h.readableBytes

theorem Holds.peek (h : m.Holds q) : m.peek = .ok q := by
  obtain ⟨front, back, h⟩ := h
  exact h.peek

theorem Holds.hasWritten (h : m.Holds q) (hroom : bytes.length ≤ m.writableBytes) :
    ∃ m', m.hasWritten bytes = .ok m' ∧ m'.Holds (q ++ bytes) := by
  obtain ⟨front, back, h⟩ := h
  rw [h.writableBytes] at hroom
  obtain ⟨m', hrun, hlay⟩ := h.hasWritten hroom
  exact ⟨m', hrun, _, _, hlay⟩

/-- `EnsureWritableBytes` makes room and changes nothing else, unless the sum of the sizes leaves `size_t`. -/
theorem Holds.ensureWritableBytes (h : m.Holds q) (hfit : q.length + len + 16 < 2 ^ 64) :
    Yields (m.ensureWritableBytes len) fun m' => m'.Holds q ∧ len ≤ m'.writableBytes := by
  obtain ⟨front, back, h⟩ := h
  have hsmall := h.small
  have hsize := h.length
  have hge := h.size_ge
  have hread := h.readableBytes
  unfold MsgBuffer.ensureWritableBytes
  unfold ensure
  rw [h.writableBytes]
  split
  next henough => exact .ok ⟨⟨front, back, h⟩, by rw [h.writableBytes]; exact henough⟩
  next hless =>
    unfold kBufferOffset at hge ⊢
    rw [sizeAdd_eq (by omega), h.head, sizeAdd_eq (by omega)]
    split
    next hmove =>
      obtain ⟨m', front', back', hrun, hlay, hback⟩ :=
        h.moveToFront (by unfold kBufferOffset; omega)
      rw [hrun]
      unfold kBufferOffset at hback
      exact .ok ⟨⟨front', back', hlay⟩, by rw [hlay.writableBytes]; omega⟩
    next =>
      -- the new buffer has room for the old bytes and the new ones
      have hgrown : 8 + q.length + len ≤ m.grownSize len ∧ m.grownSize len + 8 < 2 ^ 64 := by
        unfold grownSize kBufferOffset
        have hoff : sizeAdd 8 q.length = 8 + q.length := sizeAdd_eq (by omega)
        rw [hread, hoff, sizeAdd_eq (by omega), Nat.mod_eq_of_lt (by omega)]
        split
        · omega
        · omega
      refine (new_spec (by unfold kBufferOffset; omega) hgrown.2).bind ?_
      rintro new ⟨front', back', hnew, hback'⟩
      have henough : q.length ≤ new.writableBytes := by
        rw [hnew.writableBytes]
        omega
      unfold ensure
      rw [hread, if_pos henough, ok_bind, h.peek, ok_bind]
      rw [hnew.writableBytes] at henough
      obtain ⟨m', hrun, hlay⟩ := hnew.hasWritten henough
      rw [hrun]
      refine .ok ⟨⟨front', _, hlay⟩, ?_⟩
      rw [hlay.writableBytes, List.length_drop]
      omega

theorem Holds.append (h : m.Holds q) (hfit : q.length + bytes.length + 16 < 2 ^ 64) :
    Yields (m.append bytes) (Holds · (q ++ bytes)) := by
  refine (h.ensureWritableBytes hfit).bind fun m' hm' => ?_
  obtain ⟨m₁, hrun, hholds⟩ := hm'.1.hasWritten hm'.2
  rw [hrun]
  exact .ok hholds

theorem Holds.appendBuffer (h : m.Holds q) (ho : other.Holds o)
    (hfit : q.length + o.length + 16 < 2 ^ 64) :
    Yields (m.appendBuffer other) (Holds · (q ++ o)) := by
  unfold MsgBuffer.appendBuffer
  rw [ho.readableBytes]
  refine (h.ensureWritableBytes hfit).bind fun m' hm' => ?_
  obtain ⟨m₁, hrun, hholds⟩ := hm'.1.hasWritten hm'.2
  rw [ho.peek, ok_bind, hrun]
  exact .ok hholds

theorem Holds.appendSelf (h : m.Holds q) (hfit : q.length + q.length + 16 < 2 ^ 64) :
    Yields m.appendSelf (Holds · (q ++ q)) := by
  unfold MsgBuffer.appendSelf
  rw [h.readableBytes]
  refine (h.ensureWritableBytes hfit).bind fun m' hm' => ?_
  obtain ⟨m₁, hrun, hholds⟩ := hm'.1.hasWritten hm'.2
  rw [hm'.1.peek, ok_bind, hrun]
  exact .ok hholds

theorem Holds.addInFront (h : m.Holds q) (hfit : q.length + bytes.length + 16 < 2 ^ 64) :
    Yields (m.addInFront bytes) (Holds · (bytes ++ q)) := by
  obtain ⟨front, back, hlay⟩ := h
  have hsmall := hlay.small
  by_cases hfront : bytes.length ≤ front.length
  · obtain ⟨m', hrun, hholds⟩ := hlay.addInFront_front hfront
    rw [hrun]
    exact .ok hholds
  by_cases hback : bytes.length ≤ back.length
  · obtain ⟨m', hrun, hholds⟩ := hlay.addInFront_back (Nat.not_le.mp hfront) hback
    rw [hrun]
    exact .ok hholds
  · -- both go into a new buffer
    have hge := hlay.cap_ge
    have hcap := hlay.cap_lt
    unfold kMaxVector at hcap
    unfold kBufferOffset at hge
    unfold MsgBuffer.addInFront
    rw [if_neg (by rw [hlay.head]; exact hfront), if_neg (by rw [hlay.writableBytes]; exact hback),
      hlay.readableBytes, sizeAdd_eq (by omega)]
    refine (new_spec ?_ ?_).bind ?_
    · unfold kBufferOffset
      split <;> omega
    · unfold kBufferOffset
      split <;> omega
    rintro new ⟨front', back', hnew, -⟩
    have hempty : new.Holds [] := ⟨front', back', hnew⟩
    refine (hempty.append (by rw [List.length_nil]; omega)).bind fun m' hm' => ?_
    exact hm'.appendBuffer ⟨front, back, hlay⟩ (by rw [List.nil_append]; omega)

theorem Holds.retrieveAll (h : m.Holds q) : ∃ m', m.retrieveAll = .ok m' ∧ m'.Holds [] := by
  obtain ⟨front, back, h⟩ := h
  exact h.retrieveAll

theorem Holds.retrieve (h : m.Holds q) (len : Nat) :
    ∃ m', m.retrieve len = .ok m' ∧ m'.Holds (q.drop len) := by
  unfold MsgBuffer.retrieve
  rw [h.readableBytes]
  split
  next hall =>
    rw [List.drop_eq_nil_of_le hall]
    exact h.retrieveAll
  next hpart =>
    obtain ⟨front, back, h⟩ := h
    exact ⟨_, rfl, h.retrieve_part (Nat.not_le.mp hpart)⟩

theorem Holds.read (h : m.Holds q) (len : Nat) :
    ∃ m', m.read len = .ok (m', q.take len) ∧ m'.Holds (q.drop len) := by
  obtain ⟨m', hrun, hholds⟩ := h.retrieve (min len q.length)
  have hdrop : q.drop (min len q.length) = q.drop len := by
    rcases Nat.le_total len q.length with hle | hle
    · rw [Nat.min_eq_left hle]
    · rw [Nat.min_eq_right hle, List.drop_length, List.drop_eq_nil_of_le hle]
  have hread : readBytes m.buffer m.head (min len q.length) = .ok (q.take len) := by
    obtain ⟨front, back, hlay⟩ := h
    have hsplit : m.buffer = front ++ (q.take len ++ (q.drop len ++ back)) := by
      rw [← List.append_assoc (q.take len), List.take_append_drop, hlay.buffer]
    rw [hsplit, hlay.head]
    exact readBytes_at rfl List.length_take
  unfold MsgBuffer.read
  rw [h.readableBytes, hread, ok_bind, hrun]
  exact ⟨m', rfl, hdrop ▸ hholds⟩

theorem Holds.unwrite (h : m.Holds q) {offset : Nat} (hoff : offset ≤ q.length) :
    (m.unwrite offset).Holds (q.take (q.length - offset)) := by
  obtain ⟨front, back, h⟩ := h
  exact h.unwrite hoff

/-- `ReadFd` puts all bytes `readv` delivers behind the others. -/
theorem Holds.readFd (h : m.Holds q) (hroom : bytes.length ≤ m.readvRoom) :
    Yields (m.readFd (some bytes)) (Holds · (q ++ bytes)) := by
  obtain ⟨front, back, hlay⟩ := h
  have hsmall := hlay.small
  have hwritable := hlay.writableBytes
  unfold readvRoom kExtBuffer at hroom
  rw [hwritable] at hroom
  unfold MsgBuffer.readFd
  rw [hwritable]
  obtain ⟨m', hrun, hlay'⟩ := hlay.hasWritten (List.length_take_le back.length bytes)
  dsimp only
  rw [hrun, ok_bind]
  split
  next hfits =>
    rw [List.take_of_length_le hfits] at hlay'
    exact .ok ⟨front, _, hlay'⟩
  next hmore =>
    have htake : (bytes.take back.length).length = back.length := List.length_take_of_le (by omega)
    have hnone : back.drop (bytes.take back.length).length = [] := by rw [htake, List.drop_length]
    rw [hnone] at hlay'
    have hfull : ({ m' with tail := m'.buffer.length } : MsgBuffer).Holds (q ++ bytes.take back.length) := by
      have htail : m'.tail = m'.buffer.length := by
        rw [hlay'.tail, ← hlay'.length]
        rfl
      rw [← htail]
      exact ⟨front, [], hlay'⟩
    have hbound : back.length < 8192 := by
      by_contra hlarge
      rw [if_neg hlarge] at hroom
      split at hroom <;> omega
    rw [if_pos hbound] at hroom
    refine (hfull.append ?_).mono fun m₁ hm₁ => ?_
    · rw [List.length_append, htake, List.length_drop]
      omega
    · rw [List.append_assoc, List.take_append_drop] at hm₁
      exact hm₁

end Calls
end MsgBuffer

/-- What the buffers are for: two queues, and the strings `Read` returned. -/
structure ByteQueues where
  queue : List UInt8 := []
  other : List UInt8 := []
  reads : List (List UInt8) := []

namespace ByteQueues

def step (q : ByteQueues) : BufferOp → ByteQueues
  | .append bytes => { q with queue := q.queue ++ bytes }
  | .appendOther => { q with queue := q.queue ++ q.other }
  | .appendSelf => { q with queue := q.queue ++ q.queue }
  | .addInFront bytes => { q with queue := bytes ++ q.queue }
  | .ensureWritableBytes _ => q
  | .hasWritten bytes => { q with queue := q.queue ++ bytes }
  | .unwrite offset => { q with queue := q.queue.take (q.queue.length - offset) }
  | .retrieve len => { q with queue := q.queue.drop len }
  | .retrieveUntil n => { q with queue := q.queue.drop n }
  | .retrieveAll => { q with queue := [] }
  | .read len => { q with queue := q.queue.drop len, reads := q.reads ++ [q.queue.take len] }
  | .swap => { q with queue := q.other, other := q.queue }
  | .readFd data => { q with queue := q.queue ++ data.getD [] }

def run (q : ByteQueues) (ops : List BufferOp) : ByteQueues := ops.foldl step q

/-- The number of bytes room is asked for. -/
def request (q : ByteQueues) : BufferOp → Nat
  | .append bytes | .addInFront bytes => bytes.length
  | .appendOther => q.other.length
  | .appendSelf => q.queue.length
  | .ensureWritableBytes len => len
  | _ => 0

/-- No request leaves `size_t` when the readable bytes and twice the offset are added. -/
def Fits : ByteQueues → List BufferOp → Prop
  | _, [] => True
  | q, op :: ops => q.queue.length + q.request op + 16 < 2 ^ 64 ∧ Fits (q.step op) ops

end ByteQueues

namespace Buffers

/-- What the callers see to: `HasWritten`, `Unwrite` and `RetrieveUntil` stay inside the buffer, and
`readv` inside the room it is given. -/
def Allowed (b : Buffers) : BufferOp → Prop
  | .hasWritten bytes => bytes.length ≤ b.buf.writableBytes
  | .unwrite offset => offset ≤ b.buf.readableBytes
  | .retrieveUntil n => n ≤ b.buf.readableBytes
  | .readFd (some data) => data.length ≤ b.buf.readvRoom
  | _ => True

def AllowedRun : Buffers → List BufferOp → Prop
  | _, [] => True
  | b, op :: ops => b.Allowed op ∧ ∀ b', b.step op = .ok b' → AllowedRun b' ops

def Holds (b : Buffers) (q : ByteQueues) : Prop :=
  b.buf.Holds q.queue ∧ b.other.Holds q.other ∧ b.reads = q.reads

theorem call_spec {b : Buffers} {q : ByteQueues} (f : MsgBuffer → Checked MsgBuffer)
    {queue : List UInt8} (h : b.Holds q) (hf : Yields (f b.buf) (MsgBuffer.Holds · queue)) :
    Yields (b.call f) (Holds · { q with queue }) :=
  hf.bind fun _ hbuf => .ok ⟨hbuf, h.2.1, h.2.2⟩

/-- Every operation does to the bytes what it does to the queue. -/
theorem step_spec {b : Buffers} {q : ByteQueues} (op : BufferOp) (h : b.Holds q)
    (hallowed : b.Allowed op)
    (hfit : q.queue.length + q.request op + 16 < 2 ^ 64) : Yields (b.step op)
    (Holds · (q.step op)) := by
  have hbuf := h.1
  cases op with
  | append bytes => exact call_spec (·.append bytes) h (hbuf.append hfit)
  | appendOther => exact call_spec (·.appendBuffer b.other) h (hbuf.appendBuffer h.2.1 hfit)
  | appendSelf => exact call_spec (·.appendSelf) h (hbuf.appendSelf hfit)
  | addInFront bytes => exact call_spec (·.addInFront bytes) h (hbuf.addInFront hfit)
  | ensureWritableBytes len =>
      exact call_spec (·.ensureWritableBytes len) h ((hbuf.ensureWritableBytes hfit).mono fun _ hm => hm.1)
  | hasWritten bytes => exact call_spec (·.hasWritten bytes) h (.inr (hbuf.hasWritten hallowed))
  | unwrite offset =>
      have hoff : offset ≤ q.queue.length := hbuf.readableBytes ▸ hallowed
      exact call_spec (fun m => .ok (m.unwrite offset)) h (.ok (hbuf.unwrite hoff))
  | retrieve len => exact call_spec (·.retrieve len) h (.inr (hbuf.retrieve len))
  | retrieveUntil n => exact call_spec (·.retrieveUntil n) h (.inr (hbuf.retrieve n))
  | retrieveAll => exact call_spec (·.retrieveAll) h (.inr hbuf.retrieveAll)
  | read len =>
      obtain ⟨m', hrun, hholds⟩ := hbuf.read len
      refine .inr ⟨{ b with buf := m', reads := b.reads ++ [q.queue.take len] }, ?_, hholds, h.2.1, ?_⟩
      · change (b.buf.read len >>= _) = _
        rw [hrun]
        rfl
      · rw [h.2.2]
        rfl
  | swap => exact .ok ⟨h.2.1, hbuf, h.2.2⟩
  | readFd data =>
      cases data with
      | none => exact call_spec (·.readFd none) h (.ok (by rw [Option.getD_none, List.append_nil]; exact hbuf))
      | some bytes => exact call_spec (·.readFd (some bytes)) h (hbuf.readFd hallowed)

theorem run_spec {b : Buffers} {q : ByteQueues} (ops : List BufferOp) (h : b.Holds q)
    (hallowed : b.AllowedRun ops)
    (hfits : q.Fits ops) : Yields (b.run ops) (Holds · (q.run ops)) := by
  induction ops generalizing b q with
  | nil => exact .ok h
  | cons op ops ih =>
      change Yields (b.step op >>= fun b' => b'.run ops) _
      rcases step_spec op h hallowed.1 hfits.1 with herr | ⟨b', hrun, hholds⟩
      · rw [herr]
        exact .inl rfl
      · rw [hrun, ok_bind]
        exact ih hholds (hallowed.2 b' hrun) hfits.2

/-- `head_ <= tail_ <= buffer_.size()`, and the readable bytes are these. -/
def Shows (m : MsgBuffer) (q : List UInt8) : Prop :=
  m.head ≤ m.tail ∧ m.tail ≤ m.buffer.length ∧ (m.buffer.drop m.head).take (m.tail - m.head) = q

theorem shows_of_holds {m : MsgBuffer} {q : List UInt8} (h : m.Holds q) : Shows m q := by
  obtain ⟨front, back, h⟩ := h
  have hlen := h.length
  refine ⟨by rw [h.head, h.tail]; omega, by rw [h.tail]; omega, ?_⟩
  rw [h.buffer, h.head, h.tail, List.drop_left, Nat.add_sub_cancel_left, List.take_left]

/-- Two new buffers. -/
def start (cap cap' : Nat) : Checked Buffers := do
  let buf ← MsgBuffer.new cap
  let other ← MsgBuffer.new cap'
  return { buf, other }

/-- The run ends for want of memory, or the buffers are the queues, and a last `EnsureWritableBytes`
made its room. -/
def Correct (b : Buffers) (ops : List BufferOp) : Prop :=
  Yields (b.run ops) fun b' =>
    Shows b'.buf (ByteQueues.run {} ops).queue ∧ Shows b'.other (ByteQueues.run {} ops).other ∧
      b'.reads = (ByteQueues.run {} ops).reads ∧
      ∀ pre len, ops = pre ++ [.ensureWritableBytes len] → len ≤ b'.buf.writableBytes

theorem start_spec {cap cap' : Nat} (hcap : kBufferOffset ≤ cap) (hcap' : kBufferOffset ≤ cap')
    (hwrap : cap + kBufferOffset < 2 ^ 64) (hwrap' : cap' + kBufferOffset < 2 ^ 64) :
    Yields (start cap cap') (Holds · {}) := by
  refine (MsgBuffer.new_spec hcap hwrap).bind ?_
  rintro buf ⟨front, back, hbuf, -⟩
  refine (MsgBuffer.new_spec hcap' hwrap').bind ?_
  rintro other ⟨front', back', hother, -⟩
  exact .ok ⟨⟨front, back, hbuf⟩, ⟨front', back', hother⟩, rfl⟩

theorem fits_append {q : ByteQueues} {pre ops : List BufferOp} (h : q.Fits (pre ++ ops)) :
    q.Fits pre ∧ (q.run pre).Fits ops := by
  induction pre generalizing q with
  | nil => exact ⟨trivial, h⟩
  | cons op pre ih =>
      obtain ⟨hpre, hops⟩ := ih h.2
      exact ⟨⟨h.1, hpre⟩, hops⟩

theorem allowedRun_front {b : Buffers} {pre ops : List BufferOp} (h : b.AllowedRun (pre ++ ops)) :
    b.AllowedRun pre := by
  induction pre generalizing b with
  | nil => trivial
  | cons op pre ih => exact ⟨h.1, fun b' hrun => ih (h.2 b' hrun)⟩

theorem run_append (b : Buffers) (pre ops : List BufferOp) :
    b.run (pre ++ ops) = b.run pre >>= fun b' => b'.run ops :=
  List.foldlM_append

/-- `MsgBuffer` refines a queue of bytes, over every run in which no request for room leaves `size_t`. -/
theorem msgBuffer_refines (cap cap' : Nat) (hcap : kBufferOffset ≤ cap)
    (hcap' : kBufferOffset ≤ cap')
    (hwrap : cap + kBufferOffset < 2 ^ 64) (hwrap' : cap' + kBufferOffset < 2 ^ 64) :
    Yields (start cap cap') fun b => ∀ ops, b.AllowedRun ops → ByteQueues.Fits {} ops → b.Correct ops := by
  refine (start_spec hcap hcap' hwrap hwrap').mono fun b hb ops hallowed hfits => ?_
  rcases run_spec ops hb hallowed hfits with herr | ⟨b', hrun, hholds⟩
  · exact .inl herr
  · refine .inr ⟨b', hrun, shows_of_holds hholds.1, shows_of_holds hholds.2.1, hholds.2.2, ?_⟩
    rintro pre len rfl
    obtain ⟨hpre, hlast⟩ := fits_append hfits
    rw [run_append] at hrun
    rcases run_spec pre hb (allowedRun_front hallowed) hpre with herr | ⟨b₁, hb₁, hholds₁⟩
    · rw [herr] at hrun
      exact absurd hrun nofun
    · rw [hb₁, ok_bind] at hrun
      have hroom : Yields (b₁.buf.ensureWritableBytes len) _ :=
        hholds₁.1.ensureWritableBytes hlast.1
      rcases hroom with herr | ⟨m, hm, -, hroom⟩
      · have hstep : b₁.run [.ensureWritableBytes len] = .error .badAlloc := by
          change (b₁.buf.ensureWritableBytes len >>= _) >>= _ = _
          rw [herr]
          rfl
        exact absurd (hrun.symm.trans hstep) nofun
      · have hstep : b₁.run [.ensureWritableBytes len] = .ok { b₁ with buf := m } := by
          change (b₁.buf.ensureWritableBytes len >>= _) >>= _ = _
          rw [hm]
          rfl
        obtain rfl := Except.ok.inj (hrun.symm.trans hstep)
        exact hroom

/-- Three bytes come in and one is read. -/
theorem msgBuffer_refines_small : ∃ b, start 8 8 = .ok b ∧
    b.Correct [.append [1, 2, 3], .read 1] := by
  rcases msgBuffer_refines 8 8 (by decide) (by decide) (by decide) (by decide) with herr | ⟨b, hb, hcorrect⟩
  · exact absurd herr nofun
  · refine ⟨b, hb, hcorrect _ ⟨trivial, fun _ _ => ⟨trivial, fun _ _ => trivial⟩⟩ ?_⟩
    exact ⟨by decide, by decide, trivial⟩

/-- Room for nearly all bytes of `size_t` is granted without being there: the sum with the offset
wraps to four. -/
theorem msgBuffer_no_room :
    ¬ ∀ cap cap' : Nat, kBufferOffset ≤ cap → kBufferOffset ≤ cap' →
      Yields (start cap cap') fun b => ∀ ops, b.AllowedRun ops → b.Correct ops := by
  intro h
  rcases h 8 8 (by decide) (by decide) with herr | ⟨b, hb, hcorrect⟩
  · exact absurd herr nofun
  · obtain rfl := Except.ok.inj hb
    rcases hcorrect [.ensureWritableBytes (2 ^ 64 - 4)] ⟨trivial, fun _ _ => trivial⟩ with
      herr | ⟨b', hb', -, -, -, hroom⟩
    · exact absurd herr nofun
    · obtain rfl := Except.ok.inj hb'
      exact absurd (hroom [] _ rfl) (by decide)

end Buffers
end TmmsServer
