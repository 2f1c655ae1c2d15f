import TmmsServer.Rtmp.StreamName

/-!
# The front of a command

What is decoded stays in front of what is decoded behind it. So the name and the
transaction id of a command are its first two properties, whatever follows them.
-/
namespace TmmsServer
open Lib.Words BytesReader

section Decoder
variable [Host]

/-- Arguments in front of any rest are the first properties, by induction on them. -/
theorem decodeLoop_front (args : List AMFArgument) (rest : List UInt8) {fuel : Nat} {c : Cursor}
    {r : Decoded} (hfits : ∀ a ∈ args, a.Fits) (hlong : ∀ a ∈ args, 3 ≤ a.encode.length)
    (hdata : c.data = args.flatMap AMFArgument.encode ++ rest)
    (hr : AMFObject.decodeLoop fuel false (c.parsed + c.data.length) c = .ok r) :
    c.properties ++ args.flatMap AMFArgument.properties <+: r.properties := by
  induction args generalizing fuel c with
  | nil =>
      rw [List.flatMap_nil, List.append_nil]
      exact decodeLoop_opens fuel false _ c r hr
  | cons a args ih =>
      rw [List.flatMap_cons, List.append_assoc] at hdata
      have hlen : 3 ≤ c.data.length := by
        rw [hdata, List.length_append]
        exact Nat.le_trans (hlong a List.mem_cons_self) (Nat.le_add_right _ _)
      have hopen : field 3 c.data ≠ 9 := by
        rw [hdata]
        exact (hfits a List.mem_cons_self).open (by rw [← hdata]; exact hlen)
      match fuel, hr with
      | 0, hr => exact absurd hr nofun
      | 1, hr =>
          rw [decodeLoop_pass hlen hopen] at hr
          exact absurd hr nofun
      | fuel + 2, hr =>
          obtain ⟨c', hpass, hrest, hparsed, hproperties⟩ :=
            decodeProperty_argument fuel (hfits a List.mem_cons_self) hdata
          have hsize : c.parsed + c.data.length = c'.parsed + c'.data.length := by
            rw [hdata, hrest, hparsed, List.length_append]
            omega
          rw [decodeLoop_pass hlen hopen, hpass, ok_bind, hsize] at hr
          have hfront := ih (fun a ha => hfits a (List.mem_cons_of_mem _ ha))
            (fun a ha => hlong a (List.mem_cons_of_mem _ ha)) hrest hr
          rwa [hproperties, List.append_assoc, ← List.flatMap_cons] at hfront

/-- The arguments at the front of a command that is decoded are its first properties. -/
theorem decodedCommand_front {args : List AMFArgument} {rest : List UInt8} {marker : Option UInt8}
    {obj : List AMFAny} (hfits : ∀ a ∈ args, a.Fits) (hlong : ∀ a ∈ args, 3 ≤ a.encode.length)
    (hobj : decodedCommand (marker.toList ++ (args.flatMap AMFArgument.encode ++ rest)) marker.isSome = some obj) :
    args.flatMap AMFArgument.properties <+: obj := by
  have hbody : CommandContext.decodeCommand (marker.toList ++ (args.flatMap AMFArgument.encode ++ rest)) marker.isSome =
      AMFObject.decode (args.flatMap AMFArgument.encode ++ rest) (args.flatMap AMFArgument.encode ++ rest).length
        false := by
    cases marker with
    | none => rfl
    | some b =>
        unfold CommandContext.decodeCommand
        have hlen : (((b :: (args.flatMap AMFArgument.encode ++ rest)).length : Int) - 1) =
            (args.flatMap AMFArgument.encode ++ rest).length := by
          rw [List.length_cons]
          omega
        exact congrArg (fun size => AMFObject.decode (args.flatMap AMFArgument.encode ++ rest) size false) hlen
  obtain ⟨r, hr, -, rfl⟩ := of_decodedCommand hobj
  rw [hbody] at hr
  unfold AMFObject.decode at hr
  rw [← start_size] at hr
  exact decodeLoop_front args rest (c := { data := args.flatMap AMFArgument.encode ++ rest }) hfits hlong rfl hr

end Decoder
end TmmsServer
