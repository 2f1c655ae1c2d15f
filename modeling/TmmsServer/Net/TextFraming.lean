import TmmsServer.Net.TextContext

/-!
# Which deliveries the text parser survives

The frames of a byte stream, whole and in part, against what the calls of
`ParseMessage` come to when the stream is cut into deliveries.
-/
namespace TmmsServer
open Lib.Words

/-- The bodies of the whole frames at the front, and the rest. A frame counts as whole when `beyond`
bytes follow its header. -/
def cutFrames (beyond : Nat) (w : List UInt8) : List (List UInt8) × List UInt8 :=
  if 4 + beyond ≤ w.length ∧ HasBody (w.length - 4) (lengthWord w) then
    let r := cutFrames beyond (w.drop (4 + (lengthWord w).toNat))
    ((w.drop 4).take (lengthWord w).toNat :: r.1, r.2)
  else ([], w)
termination_by w.length
decreasing_by
  rw [List.length_drop]
  omega

section Cut
variable {beyond : Nat} {u w : List UInt8}

theorem cutFrames_frame (h : 4 + beyond ≤ w.length)
    (henough : HasBody (w.length - 4) (lengthWord w)) :
    cutFrames beyond w = ((w.drop 4).take (lengthWord w).toNat ::
      (cutFrames beyond (w.drop (4 + (lengthWord w).toNat))).1,
      (cutFrames beyond (w.drop (4 + (lengthWord w).toNat))).2) := by
  rw [cutFrames, if_pos ⟨h, henough⟩]

theorem cutFrames_rest (h : ¬ (4 + beyond ≤ w.length ∧ HasBody (w.length - 4) (lengthWord w))) :
    cutFrames beyond w = ([], w) := by
  rw [cutFrames, if_neg h]

theorem lengthWord_append (v : List UInt8) (h : 4 ≤ w.length) :
    lengthWord (w ++ v) = lengthWord w := by
  unfold lengthWord
  rw [List.take_append_of_le_length h]

theorem cutFrames_append (u v : List UInt8) :
    cutFrames beyond (u ++ v) = ((cutFrames beyond u).1 ++ (cutFrames beyond ((cutFrames beyond u).2 ++ v)).1,
      (cutFrames beyond ((cutFrames beyond u).2 ++ v)).2) := by
  induction hn : u.length using Nat.strongRecOn generalizing u with
  | ind n ih =>
      by_cases h : 4 + beyond ≤ u.length ∧ HasBody (u.length - 4) (lengthWord u)
      · obtain ⟨hlen, henough⟩ := h
        have hword := lengthWord_append v (Nat.le_trans (Nat.le_add_right 4 beyond) hlen)
        obtain ⟨hpos, hle⟩ := henough
        have hlen' : 4 + beyond ≤ (u ++ v).length := by rw [List.length_append]; omega
        have henough' : HasBody ((u ++ v).length - 4) (lengthWord (u ++ v)) := by
          rw [hword, List.length_append]
          exact ⟨hpos, by omega⟩
        have hdrop : (u ++ v).drop (4 + (lengthWord u).toNat) =
            u.drop (4 + (lengthWord u).toNat) ++ v :=
          List.drop_append_of_le_length (by omega)
        have hbody : ((u ++ v).drop 4).take (lengthWord u).toNat =
            (u.drop 4).take (lengthWord u).toNat := by
          rw [List.drop_append_of_le_length (by omega),
            List.take_append_of_le_length (by rw [List.length_drop]; omega)]
        rw [cutFrames_frame hlen' henough', cutFrames_frame hlen ⟨hpos, hle⟩, hword, hdrop, hbody,
          ih _ (by rw [List.length_drop]; omega) (u.drop (4 + (lengthWord u).toNat)) rfl]
        rfl
      · rw [cutFrames_rest h, List.nil_append]

end Cut

namespace TextContext

/-- What a call leaves of its frames' bytes: those of a header in part are unread, a whole header is noted. -/
def ctxAt (left : List UInt8) : TextContext :=
  if left.length = 4 then { state := .body, messageLength := lengthWord left } else {}

def bufAt (left : List UInt8) : List UInt8 := if left.length = 4 then [] else left

/-- What a call comes to that starts with these bytes. -/
def settle (w : List UInt8) : TextParsed where
  ctx := ctxAt (cutFrames 1 w).2
  buf := bufAt (cutFrames 1 w).2
  out := (cutFrames 1 w).1
  ret := if (cutFrames 1 w).2.length = 4 ∨ (cutFrames 1 w).2 = [] then 0 else 1

/-- Without a whole frame the call stops in the header, or behind it, or never. -/
theorem returns_rest {w : List UInt8} (hrest : ¬ (4 + 1 ≤ w.length ∧ HasBody (w.length - 4) (lengthWord w)))
    (p : TextParsed) : ({} : TextContext).Returns w p ↔ w.length ≤ 4 ∧ settle w = p := by
  unfold settle
  rw [cutFrames_rest hrest, ctxAt, bufAt]
  rcases Nat.lt_trichotomy w.length 4 with hshort | hexact | hlong
  · rw [if_neg (Nat.ne_of_lt hshort), if_neg (Nat.ne_of_lt hshort),
      and_iff_right (Nat.le_of_lt hshort), eq_comm]
    by_cases hnil : w = []
    · rw [hnil, returns_nil, if_pos (.inr rfl), eq_comm]
    · rw [returns_short rfl hnil hshort, if_neg fun h => h.elim (Nat.ne_of_lt hshort) hnil]
  · have hnil : w.drop 4 = [] := List.drop_eq_nil_of_le (Nat.le_of_eq hexact)
    rw [returns_header rfl (Nat.le_of_eq hexact.symm), hnil, returns_nil, if_pos hexact,
      if_pos hexact, if_pos (.inl hexact), and_iff_right (Nat.le_of_eq hexact), eq_comm]
    rfl
  · have hne : w.drop 4 ≠ [] := by
      refine List.ne_nil_of_length_pos ?_
      rw [List.length_drop]
      exact Nat.sub_pos_of_lt hlong
    have hnever : ¬ (({} : TextContext).readHeader w).Returns (w.drop 4) p := by
      refine not_returns_body rfl hne fun henough => hrest ⟨hlong, ?_⟩
      rw [List.length_drop] at henough
      exact henough
    rw [returns_header rfl (Nat.le_of_lt hlong)]
    exact iff_of_false hnever fun h => absurd h.1 (Nat.not_le.mpr hlong)

theorem returns_start_iff (w : List UInt8) (p : TextParsed) :
    ({} : TextContext).Returns w p ↔ (cutFrames 1 w).2.length ≤ 4 ∧ settle w = p := by
  induction hn : w.length using Nat.strongRecOn generalizing w p with
  | ind n ih =>
      by_cases hframe : 4 + 1 ≤ w.length ∧ HasBody (w.length - 4) (lengthWord w)
      · -- the first frame is read, and the rest is the same question again
        obtain ⟨hlen, henough⟩ := hframe
        have hne : w.drop 4 ≠ [] := by
          refine List.ne_nil_of_length_pos ?_
          rw [List.length_drop]
          omega
        have hshort : (w.drop (4 + (lengthWord w).toNat)).length < n := by
          rw [List.length_drop]
          omega
        rw [returns_header rfl (Nat.le_of_succ_le hlen),
          returns_body rfl hne (by rw [List.length_drop]; exact henough)]
        have hrest : (w.drop 4).drop (lengthWord w).toNat = w.drop (4 + (lengthWord w).toNat) := by
          rw [List.drop_drop]
        change (∃ p', Returns {} ((w.drop 4).drop (lengthWord w).toNat) p' ∧ _) ↔ _
        rw [hrest]
        simp only [ih _ hshort _ _ rfl]
        unfold settle
        rw [cutFrames_frame hlen henough]
        constructor
        · rintro ⟨p', ⟨hle, rfl⟩, rfl⟩
          exact ⟨hle, rfl⟩
        · rintro ⟨hle, rfl⟩
          exact ⟨_, ⟨hle, rfl⟩, rfl⟩
      · rw [returns_rest hframe, cutFrames_rest hframe]

/-- A call goes on where the last one stopped, and returns unless a body is there in part. -/
theorem returns_iff {left : List UInt8} (hleft : left.length ≤ 4) (piece : List UInt8)
    (p : TextParsed) : (ctxAt left).Returns (bufAt left ++ piece) p ↔
      (cutFrames 1 (left ++ piece)).2.length ≤ 4 ∧ settle (left ++ piece) = p := by
  by_cases hexact : left.length = 4
  · unfold ctxAt bufAt
    rw [if_pos hexact, if_pos hexact, List.nil_append]
    by_cases hpiece : piece = []
    · have hcut : cutFrames 1 left = ([], left) := cutFrames_rest fun h => by omega
      rw [hpiece, List.append_nil, returns_nil, settle, hcut, ctxAt, bufAt, if_pos hexact,
        if_pos hexact, if_pos (.inl hexact), and_iff_right hleft, eq_comm]
    · -- the header that was read is as good as unread
      have hlong : 4 ≤ (left ++ piece).length := by rw [List.length_append]; omega
      have hdrop : (left ++ piece).drop 4 = piece := List.drop_left' hexact
      have hread : ({} : TextContext).readHeader (left ++ piece) =
          { state := .body, messageLength := lengthWord left } := by
        unfold readHeader
        rw [lengthWord_append piece (Nat.le_of_eq hexact.symm)]
      rw [← returns_start_iff, returns_header rfl hlong, hdrop, hread]
  · unfold ctxAt bufAt
    rw [if_neg hexact, if_neg hexact]
    exact returns_start_iff _ _

theorem cutFrames_short (w : List UInt8) :
    (cutFrames 1 w).2.length ≤ 4 ↔ (cutFrames 0 w).2.length ≤ 4 := by
  induction hn : w.length using Nat.strongRecOn generalizing w with
  | ind n ih =>
      by_cases hone : 4 + 1 ≤ w.length ∧ HasBody (w.length - 4) (lengthWord w)
      · rw [cutFrames_frame hone.1 hone.2, cutFrames_frame (Nat.le_of_succ_le hone.1) hone.2]
        exact ih _ (by rw [List.length_drop]; omega) _ rfl
      · rw [cutFrames_rest hone]
        by_cases hzero : 4 + 0 ≤ w.length ∧ HasBody (w.length - 4) (lengthWord w)
        · -- nothing but a header of an empty frame
          have hfour : w.length = 4 := by
            refine Nat.le_antisymm (Nat.not_lt.mp fun hlt => hone ⟨hlt, hzero.2⟩) hzero.1
          have hnil : w.drop (4 + (lengthWord w).toNat) = [] := List.drop_eq_nil_of_le (by omega)
          rw [cutFrames_frame hzero.1 hzero.2, hnil, cutFrames_rest fun h => absurd h.1 (by decide)]
          exact iff_of_true (Nat.le_of_eq hfour) (Nat.zero_le 4)
        · rw [cutFrames_rest hzero]

/-- What the calls come to, one after the other. -/
def trail (left : List UInt8) : List (List UInt8) → List TextParsed
  | [] => []
  | piece :: pieces => settle (left ++ piece) :: trail (cutFrames 1 (left ++ piece)).2 pieces

theorem trail_length (left : List UInt8) (pieces : List (List UInt8)) :
    (trail left pieces).length = pieces.length := by
  induction pieces generalizing left with
  | nil => rfl
  | cons piece pieces ih => exact congrArg Nat.succ (ih _)

/-- All calls return just when no delivery ends with a body in part. -/
theorem calls_iff {left : List UInt8} (hleft : left.length ≤ 4) (pieces : List (List UInt8))
    (ps : List TextParsed) : Calls (ctxAt left) (bufAt left) pieces ps ↔
      (∀ i, i < pieces.length → (cutFrames 1 (left ++ (pieces.take (i + 1)).flatten)).2.length ≤ 4) ∧
        trail left pieces = ps := by
  induction pieces generalizing left ps with
  | nil =>
      constructor
      · rintro ⟨⟩
        exact ⟨fun i hi => absurd hi (Nat.not_lt_zero i), rfl⟩
      · rintro ⟨-, rfl⟩
        exact .nil _ _
  | cons piece pieces ih =>
      have hsplit : ∀ i, (cutFrames 1 (left ++ ((piece :: pieces).take (i + 1)).flatten)).2 =
          (cutFrames 1 ((cutFrames 1 (left ++ piece)).2 ++ (pieces.take i).flatten)).2 := by
        intro i
        rw [List.take_succ_cons, List.flatten_cons, ← List.append_assoc, cutFrames_append]
      constructor
      · rintro (_ | ⟨hcall, hcalls⟩)
        obtain ⟨hle, rfl⟩ := (returns_iff hleft piece _).mp hcall
        obtain ⟨hrest, rfl⟩ := (ih hle _).mp hcalls
        refine ⟨fun i hi => ?_, rfl⟩
        cases i with
        | zero => simpa using hle
        | succ i =>
            rw [hsplit]
            exact hrest i (Nat.lt_of_succ_lt_succ hi)
      · rintro ⟨hall, rfl⟩
        have hle : (cutFrames 1 (left ++ piece)).2.length ≤
            4 := by simpa using hall 0 (Nat.succ_pos _)
        refine .cons ((returns_iff hleft piece _).mpr ⟨hle, rfl⟩) ((ih hle _).mpr ⟨fun i hi => ?_, rfl⟩)
        rw [← hsplit]
        exact hall (i + 1) (Nat.succ_lt_succ hi)

/-- The bodies passed up to a call, and what it returns, are those of all bytes up to there. -/
theorem trail_get {left : List UInt8} {pieces : List (List UInt8)} {i : Nat} {p : TextParsed}
    (h : (trail left pieces)[i]? = some p) :
    i < pieces.length ∧
      ((trail left pieces).take (i + 1)).flatMap TextParsed.out =
        (cutFrames 1 (left ++ (pieces.take (i + 1)).flatten)).1 ∧
      p.ret = (settle (left ++ (pieces.take (i + 1)).flatten)).ret := by
  induction pieces generalizing left i with
  | nil => exact absurd h nofun
  | cons piece pieces ih =>
      have hsplit := @cutFrames_append 1 (left ++ piece) (pieces.take i).flatten
      rw [List.append_assoc, ← List.flatten_cons, ← List.take_succ_cons] at hsplit
      cases i with
      | zero =>
          obtain rfl := Option.some.inj h
          refine ⟨Nat.succ_pos _, ?_, ?_⟩
          · simp [trail, settle]
          · simp
      | succ i =>
          obtain ⟨hi, hout, hret⟩ := ih h
          refine ⟨Nat.succ_lt_succ hi, ?_, ?_⟩
          · rw [trail, List.take_succ_cons, List.flatMap_cons, hout, hsplit]
            rfl
          · rw [hret, settle, settle, hsplit]

end TextContext

/-- A message as it is sent. -/
def textFrame (message : List UInt8) : List UInt8 := beBytes 4 message.length ++ message

/-- The messages whose last byte is among the first `n`, and the number of bytes after them. -/
def completed : List (List UInt8) → Nat → List (List UInt8) × Nat
  | [], n => ([], n)
  | message :: messages, n =>
      if message.length + 4 ≤ n then
        (message :: (completed messages (n - (message.length + 4))).1,
          (completed messages (n - (message.length + 4))).2)
      else ([], n)

/-- After `n` bytes the last message that was begun is whole and not empty, or its header is there in part. -/
def Clean (messages : List (List UInt8)) (n : Nat) : Prop :=
  (completed messages n).2 < 4 ∧ ¬ ((completed messages n).2 = 0 ∧ (completed messages n).1.getLast? = some [])

instance (messages : List (List UInt8)) (n : Nat) : Decidable (Clean messages n) :=
  inferInstanceAs (Decidable (_ ∧ _))

section Frames
variable {message : List UInt8} {messages : List (List UInt8)} {n : Nat}

theorem textFrame_length (message : List UInt8) :
    (textFrame message).length = message.length + 4 := by
  rw [textFrame, List.length_append, beBytes_length, Nat.add_comm]

theorem lengthWord_textFrame (h : message.length < 2 ^ 31) (rest : List UInt8) :
    lengthWord (beBytes 4 message.length ++ rest) = message.length := by
  have hvalue : beValue (beBytes 4 message.length) = message.length := by
    rw [beValue_beBytes, Nat.mod_eq_of_lt (Nat.lt_trans h (by decide))]
  unfold lengthWord
  rw [List.take_left' (beBytes_length 4 _), hvalue, if_pos h]

theorem cutFrames_textFrame (h : message.length < 2 ^ 31) (rest : List UInt8)
    (hne : message ++ rest ≠ []) : cutFrames 1 (textFrame message ++ rest) =
      (message :: (cutFrames 1 rest).1, (cutFrames 1 rest).2) := by
  have hword : lengthWord (textFrame message ++ rest) = message.length := by
    rw [textFrame, List.append_assoc]
    exact lengthWord_textFrame h _
  have hpos : 0 < (message ++ rest).length := List.length_pos_iff.mpr hne
  rw [List.length_append] at hpos
  have hlen : (textFrame message ++ rest).length = message.length + rest.length + 4 := by
    rw [List.length_append, textFrame_length]
    omega
  have hdrop : (textFrame message ++ rest).drop 4 = message ++ rest := by
    rw [textFrame, List.append_assoc]
    exact List.drop_left' (beBytes_length 4 _)
  have henough : HasBody ((textFrame message ++ rest).length - 4) (lengthWord (textFrame message ++ rest)) := by
    rw [hword, hlen]
    exact ⟨Int.natCast_nonneg _, by rw [Int.toNat_natCast]; omega⟩
  rw [cutFrames_frame (by omega) henough, hword, Int.toNat_natCast, ← List.drop_drop, hdrop,
    List.take_left, List.drop_left]

theorem cutFrames_take (h : message.length < 2 ^ 31) (rest : List UInt8)
    (hn : n < message.length + 4) :
    cutFrames 1 ((textFrame message ++ rest).take n) = ([], (textFrame message ++ rest).take n) := by
  refine cutFrames_rest ?_
  rintro ⟨hlen, -, hle⟩
  rw [List.length_take] at hlen hle
  have hword : lengthWord ((textFrame message ++ rest).take n) = message.length := by
    rw [textFrame, List.append_assoc, List.take_append,
      List.take_of_length_le (by rw [beBytes_length]; omega)]
    exact lengthWord_textFrame h _
  rw [hword, Int.toNat_natCast] at hle
  omega

theorem completed_zero (messages : List (List UInt8)) : completed messages 0 = ([], 0) := by
  cases messages with
  | nil => rfl
  | cons message messages => rw [completed, if_neg (Nat.not_le.mpr (Nat.succ_pos _))]

theorem completed_none (h : (completed messages n).1 = []) : (completed messages n).2 = n := by
  cases messages with
  | nil => rfl
  | cons message messages =>
      rw [completed] at h ⊢
      split at h
      · exact absurd h (List.cons_ne_nil _ _)
      next hwhole => rw [if_neg hwhole]

theorem endsEmpty_cons (hne : message ++ (messages.flatMap textFrame).take n ≠ []) :
    ((completed messages n).2 = 0 ∧ (message :: (completed messages n).1).getLast? = some []) ↔
      (completed messages n).2 = 0 ∧ (completed messages n).1.getLast? = some [] := by
  rw [List.getLast?_cons]
  cases hdone : (completed messages n).1.getLast? with
  | some m => rfl
  | none =>
      refine iff_of_false ?_ fun h => absurd h.2 nofun
      rintro ⟨hzero, hlast⟩
      have hnone := completed_none (List.getLast?_eq_none_iff.mp hdone)
      obtain rfl : n = 0 := hnone.symm.trans hzero
      refine hne ?_
      rw [List.take_zero, List.append_nil]
      exact Option.some.inj hlast

/-- What the calls make of the first bytes of a row of messages: all that is whole, but for an empty
message at the end. -/
theorem cutFrames_completed (hlen : ∀ m ∈ messages, m.length < 2 ^ 31)
    (hn : n ≤ (messages.flatMap textFrame).length) :
    ((completed messages n).2 = 0 ∧ (completed messages n).1.getLast? = some [] ∧
        (cutFrames 1 ((messages.flatMap textFrame).take n)).2.length = 4 ∧
        (cutFrames 1 ((messages.flatMap textFrame).take n)).1 ≠ (completed messages n).1) ∨
      ¬ ((completed messages n).2 = 0 ∧ (completed messages n).1.getLast? = some []) ∧
        (cutFrames 1 ((messages.flatMap textFrame).take n)).1 = (completed messages n).1 ∧
        (cutFrames 1 ((messages.flatMap textFrame).take n)).2.length = (completed messages n).2 := by
  induction messages generalizing n with
  | nil =>
      obtain rfl : n = 0 := Nat.le_zero.mp hn
      refine .inr ⟨nofun, ?_, ?_⟩
      · rw [List.flatMap_nil, List.take_nil, cutFrames_rest (by simp)]
        rfl
      · rw [List.flatMap_nil, List.take_nil, cutFrames_rest (by simp)]
        rfl
  | cons message messages ih =>
      have hm := hlen message List.mem_cons_self
      rw [List.flatMap_cons, List.length_append, textFrame_length] at hn
      rw [List.flatMap_cons]
      by_cases hwhole : message.length + 4 ≤ n
      · have hih := ih (fun m hmem => hlen m (List.mem_cons_of_mem _ hmem)) (n := n - (message.length + 4)) (by omega)
        have htake : (textFrame message ++ messages.flatMap textFrame).take n =
            textFrame message ++ (messages.flatMap textFrame).take (n - (message.length + 4)) := by
          rw [List.take_append, textFrame_length,
            List.take_of_length_le (by rw [textFrame_length]; exact hwhole)]
        rw [htake, completed, if_pos hwhole]
        have hk : n - (message.length + 4) ≤ (messages.flatMap textFrame).length := by omega
        generalize n - (message.length + 4) = k at *
        by_cases hempty : message ++ (messages.flatMap textFrame).take k = []
        · -- the empty message is the last thing there is
          obtain ⟨rfl, hnone⟩ := List.append_eq_nil_iff.mp hempty
          have hzero : k = 0 := by
            have hlength := congrArg List.length hnone
            rw [List.length_take, List.length_nil] at hlength
            omega
          subst hzero
          rw [completed_zero, List.take_zero, List.append_nil]
          refine .inl ⟨rfl, rfl, ?_, ?_⟩
          · rw [cutFrames_rest (by rw [textFrame_length]; exact fun h => absurd h.1 (by decide))]
            rfl
          · rw [cutFrames_rest (by rw [textFrame_length]; exact fun h => absurd h.1 (by decide))]
            exact (List.cons_ne_nil _ _).symm
        · rw [cutFrames_textFrame hm _ hempty]
          have hends := endsEmpty_cons hempty
          rcases hih with ⟨hzero, hlast, hfour, hne⟩ | ⟨hclean, hout, hleft⟩
          · exact .inl ⟨hzero, (hends.mpr ⟨hzero, hlast⟩).2, hfour, fun h => hne (List.cons.inj h).2⟩
          · exact .inr ⟨fun h => hclean (hends.mp h), by rw [hout], hleft⟩
      · rw [cutFrames_take hm _ (Nat.not_le.mp hwhole), completed, if_neg hwhole]
        refine .inr ⟨fun h => absurd h.2 nofun, rfl, ?_⟩
        rw [List.length_take, List.length_append, textFrame_length]
        omega

end Frames

namespace TextContext

/-- After every delivery `ParseMessage` has returned, the callback has got the messages that are
whole, and the return value was 1 if one is there in part. -/
def Framed (messages pieces : List (List UInt8)) : Prop :=
  ∃ ps, Calls {} [] pieces ps ∧ ∀ i p, ps[i]? = some p →
    (ps.take (i + 1)).flatMap TextParsed.out = (completed messages (pieces.take (i + 1)).flatten.length).1 ∧
    (0 < (completed messages (pieces.take (i + 1)).flatten.length).2 → p.ret = 1)

theorem calls_start_iff (pieces : List (List UInt8)) (ps : List TextParsed) :
    Calls {} [] pieces ps ↔
    (∀ i, i < pieces.length → (cutFrames 1 (pieces.take (i + 1)).flatten).2.length ≤ 4) ∧
    trail [] pieces = ps :=
  @calls_iff [] (Nat.zero_le 4) pieces ps

section Delivered
variable {messages pieces : List (List UInt8)}

theorem cutFrames_delivered (hlen : ∀ m ∈ messages, m.length < 2 ^ 31)
    (hflat : pieces.flatten = messages.flatMap textFrame) (i : Nat) :
    ((completed messages (pieces.take (i + 1)).flatten.length).2 = 0 ∧
        (completed messages (pieces.take (i + 1)).flatten.length).1.getLast? = some [] ∧
        (cutFrames 1 (pieces.take (i + 1)).flatten).2.length = 4 ∧
        (cutFrames 1 (pieces.take (i + 1)).flatten).1 ≠ (completed messages (pieces.take (i + 1)).flatten.length).1) ∨
      ¬ ((completed messages (pieces.take (i + 1)).flatten.length).2 = 0 ∧
          (completed messages (pieces.take (i + 1)).flatten.length).1.getLast? = some []) ∧
        (cutFrames 1 (pieces.take (i + 1)).flatten).1 = (completed messages (pieces.take (i + 1)).flatten.length).1 ∧
        (cutFrames 1 (pieces.take (i + 1)).flatten).2.length =
          (completed messages (pieces.take (i + 1)).flatten.length).2 := by
  have hsplit : (pieces.take (i + 1)).flatten ++ (pieces.drop (i + 1)).flatten =
      messages.flatMap textFrame := by
    rw [← List.flatten_append, List.take_append_drop, hflat]
  have hcut : (messages.flatMap textFrame).take (pieces.take (i + 1)).flatten.length =
      (pieces.take (i + 1)).flatten := by
    rw [← hsplit, List.take_left]
  have hle : (pieces.take (i + 1)).flatten.length ≤ (messages.flatMap textFrame).length := by
    rw [← hsplit, List.length_append]
    exact Nat.le_add_right _ _
  have hcase := cutFrames_completed hlen hle
  rwa [hcut] at hcase

theorem Framed.clean (hlen : ∀ m ∈ messages, m.length < 2 ^ 31)
    (hflat : pieces.flatten = messages.flatMap textFrame)
    (h : Framed messages pieces) (i : Nat) (hi : i < pieces.length) :
    Clean messages (pieces.take (i + 1)).flatten.length := by
  obtain ⟨ps, hcalls, hps⟩ := h
  obtain ⟨hall, rfl⟩ := (calls_start_iff pieces ps).mp hcalls
  obtain ⟨p, hp⟩ : ∃ p, (trail [] pieces)[i]? = some p :=
    ⟨_, List.getElem?_eq_getElem (by rw [trail_length]; exact hi)⟩
  obtain ⟨hout, hret⟩ := hps i p hp
  obtain ⟨-, hpassed, hcode⟩ := trail_get hp
  rw [hpassed, List.nil_append] at hout
  rw [hcode, List.nil_append, settle] at hret
  rcases cutFrames_delivered hlen hflat i with ⟨-, -, -, hne⟩ | ⟨hclean, -, hleft⟩
  · exact absurd hout hne
  · refine ⟨Nat.lt_of_le_of_ne (hleft ▸ hall i hi) fun hfour => ?_, hclean⟩
    -- behind a header the call returns 0
    have hone := hret (hfour ▸ by decide)
    dsimp only at hone
    rw [if_pos (.inl (hleft.trans hfour))] at hone
    exact absurd hone (by decide)

theorem framed_of_clean (hlen : ∀ m ∈ messages, m.length < 2 ^ 31)
    (hflat : pieces.flatten = messages.flatMap textFrame)
    (hclean : ∀ i, i < pieces.length → Clean messages (pieces.take (i + 1)).flatten.length) :
    Framed messages pieces := by
  have hright : ∀ i, i < pieces.length →
      (cutFrames 1 (pieces.take (i + 1)).flatten).1 = (completed messages (pieces.take (i + 1)).flatten.length).1 ∧
      (cutFrames 1 (pieces.take (i + 1)).flatten).2.length =
        (completed messages (pieces.take (i + 1)).flatten.length).2 := by
    intro i hi
    rcases cutFrames_delivered hlen hflat i with ⟨hzero, hlast, -, -⟩ | ⟨-, hright⟩
    · exact absurd ⟨hzero, hlast⟩ (hclean i hi).2
    · exact hright
  refine ⟨_, (calls_start_iff pieces _).mpr ⟨fun i hi => ?_, rfl⟩, fun i p hp => ?_⟩
  · rw [(hright i hi).2]
    exact Nat.le_of_lt (hclean i hi).1
  · obtain ⟨hi, hpassed, hcode⟩ := trail_get hp
    obtain ⟨hout, hleft⟩ := hright i hi
    refine ⟨?_, fun hpos => ?_⟩
    · rw [hpassed, List.nil_append, hout]
    · rw [hcode, List.nil_append, settle]
      refine if_neg ?_
      rintro (hfour | hnil)
      · exact absurd ((hleft.symm.trans hfour) ▸ (hclean i hi).1) (Nat.lt_irrefl 4)
      · rw [← hleft, hnil] at hpos
        exact Nat.lt_irrefl 0 hpos

end Delivered

/-- Where the deliveries are those of a row of messages, one that ends in a body, or behind the
header of a message, does not get what was promised; all others do. Whatever the bytes are, the
calls return when no delivery ends with more than a header of a frame in part. -/
theorem textFraming_iff (pieces : List (List UInt8)) :
    (∀ messages : List (List UInt8), (∀ m ∈ messages, m.length < 2 ^ 31) → pieces.flatten = messages.flatMap textFrame →
      (Framed messages pieces ↔ ∀ i, i < pieces.length → Clean messages (pieces.take (i + 1)).flatten.length)) ∧
    ((∃ ps, Calls {} [] pieces ps) ↔
      ∀ i, i < pieces.length → (cutFrames 0 (pieces.take (i + 1)).flatten).2.length ≤ 4) := by
  constructor
  · intro messages hlen hflat
    exact ⟨fun hframed i hi => hframed.clean hlen hflat i hi, framed_of_clean hlen hflat⟩
  · constructor
    · rintro ⟨ps, hcalls⟩ i hi
      exact (cutFrames_short _).mp (((calls_start_iff pieces ps).mp hcalls).1 i hi)
    · intro hall
      exact ⟨_, (calls_start_iff pieces _).mpr ⟨fun i hi => (cutFrames_short _).mpr (hall i hi), rfl⟩⟩

/-- A message of one byte, the first delivery ending in its header. -/
theorem textFraming_iff_oneByte : Framed [[7]] [[0, 0, 0], [1, 7]] :=
  ((textFraming_iff [[0, 0, 0], [1, 7]]).1 [[7]] (by decide) (by decide)).mpr (by decide)

/-- A delivery that ends between the two bytes of a message: the call does not return. -/
theorem textFraming_fails :
    ¬ ((∀ messages pieces : List (List UInt8), (∀ m ∈ messages, m.length < 2 ^ 31) →
        pieces.flatten = messages.flatMap textFrame → Framed messages pieces) ∧
      ∀ pieces : List (List UInt8), ∃ ps, Calls {} [] pieces ps) := by
  rintro ⟨h, -⟩
  obtain ⟨ps, hcalls, -⟩ := h [[1, 2]] [[0, 0, 0, 2, 1], [2]] (by decide) (by decide)
  obtain _ | ⟨hcall, -⟩ := hcalls
  rw [List.nil_append, returns_header rfl (by decide)] at hcall
  exact not_returns_body rfl (by decide) (by decide) hcall

end TextContext
end TmmsServer
