import TmmsServer.Base.StringUtils
import TmmsServer.Lib.Decimal

/-!
# The client's URL

Where `RtmpClient::ParseUrl` finds the host and the port to connect to.
-/
namespace TmmsServer
open Lib

/-- The two strings of an address. -/
structure InetAddress where
  addr : List UInt8 := []
  port : List UInt8 := []
  deriving DecidableEq, Repr

namespace InetAddress

def setAddr (a : InetAddress) (addr : List UInt8) : InetAddress := { a with addr }

/-- The port is kept in decimal, by `std::to_string`. -/
def setPort (a : InetAddress) (port : UInt16) : InetAddress := { a with port := Decimal.write port.toNat }

def ip (a : InetAddress) : List UInt8 := a.addr

/-- `Port`. -/
def portNumber (a : InetAddress) : UInt16 := UInt16.ofInt (Decimal.atoi a.port)

@[simp] theorem ip_set (a : InetAddress) (addr : List UInt8) (port : UInt16) :
    ((a.setAddr addr).setPort port).ip = addr := rfl

theorem ofInt_toNat (port : UInt16) : UInt16.ofInt port.toNat = port := by
  have hlt := port.toNat_lt
  rw [UInt16.ofInt, Int.emod_eq_of_lt (by omega) (by omega), Int.toNat_natCast, UInt16.ofNat_toNat]

@[simp] theorem portNumber_set (a : InetAddress) (port : UInt16) : (a.setPort port).portNumber = port := by
  have hread := Decimal.atoi_write (s := []) port.toNat (fun c hc => absurd hc nofun)
  rw [List.append_nil] at hread
  rw [portNumber, setPort, hread, ofInt_toNat]

end InetAddress

namespace RtmpClient

/-- `std::string::find_first_of`. -/
def findFirstOf (chars s : List UInt8) (pos : Nat) : Option Nat :=
  ((s.drop pos).findIdx? (· ∈ chars)).map (pos + ·)

/-- `std::string::substr`. -/
def substr (s : List UInt8) (pos n : Nat) : List UInt8 := (s.drop pos).take n

/-- The port, where the host ends at `pos`: what is behind a colon counts up to the next slash. -/
def portAt (url : List UInt8) (pos : Nat) : UInt16 :=
  if url[pos]? = some 58 then
    match findFirstOf (text "/") url (pos + 1) with
    | some pos1 => UInt16.ofInt (Decimal.atoi (substr url (pos + 1) (pos1 - pos)))
    | none => 1935
  else 1935

/-- `ParseUrl`: what it returns, and the address it leaves. -/
def parseUrl (addr : InetAddress) (url : List UInt8) : Bool × InetAddress :=
  if 7 < url.length then
    match findFirstOf (text ":/") url 7 with
    | some pos => (true, (addr.setAddr (substr url 7 (pos - 7))).setPort (portAt url pos))
    | none => (false, addr)
  else (false, addr)

/-- The parts of a URL. -/
structure HostUrl where
  host : List UInt8
  port : UInt16
  path : List UInt8
  host_ne_nil : host ≠ []
  host_clear : ∀ c ∈ host, c ≠ 58 ∧ c ≠ 47
  path_slash : path ≠ [] → path.head? = some 47

namespace HostUrl

/-- `rtmp://host:port/path` -/
def withPort (u : HostUrl) : List UInt8 :=
  text "rtmp://" ++ (u.host ++ 58 :: (Decimal.write u.port.toNat ++ u.path))

/-- `rtmp://host/path` -/
def bare (u : HostUrl) : List UInt8 := text "rtmp://" ++ (u.host ++ u.path)

end HostUrl

/-- `ParseUrl` takes the URL, and the address it sets has this host and port. -/
def Reaches (addr : InetAddress) (url host : List UInt8) (port : UInt16) : Prop :=
  ∃ target, parseUrl addr url = (true, target) ∧ target.ip = host ∧ target.portNumber = port

section Find
variable {chars p a s : List UInt8} {c : UInt8}

theorem findFirstOf_some (ha : ∀ x ∈ a, x ∉ chars) (hc : c ∈ chars) :
    findFirstOf chars (p ++ (a ++ c :: s)) p.length = some (p.length + a.length) := by
  have hnone : a.findIdx? (· ∈ chars) = none := by simpa [List.findIdx?_eq_none_iff] using ha
  rw [findFirstOf, List.drop_left, List.findIdx?_append, hnone, List.findIdx?_cons, if_pos (decide_eq_true hc)]
  simp

theorem findFirstOf_none (ha : ∀ x ∈ a, x ∉ chars) : findFirstOf chars (p ++ a) p.length = none := by
  rw [findFirstOf, List.drop_left, Option.map_eq_none_iff, List.findIdx?_eq_none_iff]
  simpa using ha

theorem substr_append (p a s : List UInt8) : substr (p ++ (a ++ s)) p.length a.length = a := by
  rw [substr, List.drop_left, List.take_left]

end Find

section Parse
variable (addr : InetAddress)

/-- A host that ends at a colon or a slash is the target, with the port that `portAt` finds there. -/
theorem parseUrl_host {host s : List UInt8} {c : UInt8} (hhost : ∀ x ∈ host, x ≠ 58 ∧ x ≠ 47)
    (hc : c = 58 ∨ c = 47) : parseUrl addr (text "rtmp://" ++ (host ++ c :: s)) =
      (true, (addr.setAddr host).setPort (portAt (text "rtmp://" ++ (host ++ c :: s)) (7 + host.length))) := by
  have hlong : 7 < (text "rtmp://" ++ (host ++ c :: s)).length := by
    rw [List.length_append, List.length_append, List.length_cons]
    change 7 < 7 + _
    omega
  have hfind : findFirstOf (text ":/") (text "rtmp://" ++ (host ++ c :: s)) 7 = some (7 + host.length) := by
    refine findFirstOf_some (p := text "rtmp://") (fun x hx hmem => ?_) ?_
    · have hx' := hhost x hx
      change x ∈ [58, 47] at hmem
      simp [hx'.1, hx'.2] at hmem
    · change c ∈ [58, 47]
      simpa using hc
  have hdomain : substr (text "rtmp://" ++ (host ++ c :: s)) 7 (7 + host.length - 7) = host := by
    rw [Nat.add_sub_cancel_left]
    exact substr_append (text "rtmp://") host (c :: s)
  rw [parseUrl, if_pos hlong, hfind]
  dsimp only
  rw [hdomain]

theorem reaches_host {host s : List UInt8} {c : UInt8} {port : UInt16} (hhost : ∀ x ∈ host, x ≠ 58 ∧ x ≠ 47)
    (hc : c = 58 ∨ c = 47) : Reaches addr (text "rtmp://" ++ (host ++ c :: s)) host port ↔
      portAt (text "rtmp://" ++ (host ++ c :: s)) (7 + host.length) = port := by
  rw [Reaches, parseUrl_host addr hhost hc]
  simp

end Parse

section Port

theorem getElem?_front (p a s : List UInt8) (c : UInt8) : (p ++ (a ++ c :: s))[p.length + a.length]? = some c := by
  rw [← List.append_assoc, ← List.length_append]
  simp

theorem portAt_slash (p a s : List UInt8) : portAt (p ++ (a ++ 47 :: s)) (p.length + a.length) = 1935 := by
  rw [portAt, getElem?_front, if_neg (by decide)]

theorem slash_not_digit (port : UInt16) {x : UInt8} (hx : x ∈ Decimal.write port.toNat) : x ∉ text "/" := by
  have hdigit := Decimal.isDigit_of_mem_write hx
  intro hmem
  obtain rfl : x = 47 := List.mem_singleton.mp hmem
  exact absurd hdigit (by decide)

theorem append_colon (p a s : List UInt8) : p ++ (a ++ 58 :: s) = (p ++ a ++ [58]) ++ s := by simp

theorem length_colon (p a : List UInt8) : (p ++ a ++ [58]).length = p.length + a.length + 1 := by simp; omega

/-- A port in front of a slash is read. -/
theorem portAt_colon_slash (p a s : List UInt8) (port : UInt16) :
    portAt (p ++ (a ++ 58 :: (Decimal.write port.toNat ++ 47 :: s))) (p.length + a.length) = port := by
  have hfind := findFirstOf_some (p := p ++ a ++ [58]) (s := s) (fun x hx => slash_not_digit port hx)
    (List.mem_singleton_self (47 : UInt8))
  rw [length_colon] at hfind
  have hslice : substr (p ++ (a ++ 58 :: (Decimal.write port.toNat ++ 47 :: s))) (p.length + a.length + 1)
      ((Decimal.write port.toNat).length + 1) = Decimal.write port.toNat ++ [47] := by
    have hcut := substr_append (p ++ a ++ [58]) (Decimal.write port.toNat ++ [47]) s
    rw [length_colon, List.length_append, List.append_assoc (Decimal.write port.toNat)] at hcut
    rw [append_colon]
    exact hcut
  have hread : Decimal.atoi (Decimal.write port.toNat ++ [47]) = port.toNat :=
    Decimal.atoi_write port.toNat fun c hc => by
      obtain rfl : (47 : UInt8) = c := Option.some.inj hc
      decide
  have hwidth : p.length + a.length + 1 + (Decimal.write port.toNat).length - (p.length + a.length) =
      (Decimal.write port.toNat).length + 1 := by omega
  rw [portAt, getElem?_front, if_pos rfl]
  rw [append_colon, hfind]
  dsimp only
  rw [hwidth, ← append_colon, hslice, hread, InetAddress.ofInt_toNat]

/-- A port that nothing follows is not. -/
theorem portAt_colon_end (p a : List UInt8) (port : UInt16) :
    portAt (p ++ (a ++ 58 :: Decimal.write port.toNat)) (p.length + a.length) = 1935 := by
  have hfind := findFirstOf_none (p := p ++ a ++ [58]) fun x hx => slash_not_digit port hx
  rw [length_colon] at hfind
  rw [portAt, getElem?_front, if_pos rfl, append_colon, hfind]

end Port

/-- A URL with a port is followed exactly if a path stands behind the port or the port is the default one; one
without a port goes to the default port. -/
theorem parseUrl_reaches (addr : InetAddress) (u : HostUrl) :
    (Reaches addr u.withPort u.host u.port ↔ u.path ≠ [] ∨ u.port = 1935) ∧
      (u.path ≠ [] → Reaches addr u.bare u.host 1935) := by
  refine ⟨?_, fun hpath => ?_⟩
  · rw [HostUrl.withPort, reaches_host addr u.host_clear (.inl rfl)]
    by_cases hpath : u.path = []
    · have hport := portAt_colon_end (text "rtmp://") u.host u.port
      rw [hpath, List.append_nil]
      change portAt _ ((text "rtmp://").length + u.host.length) = _ ↔ _
      rw [hport]
      simp [eq_comm]
    · obtain ⟨s, hs⟩ := List.head?_eq_some_iff.mp (u.path_slash hpath)
      have hport := portAt_colon_slash (text "rtmp://") u.host s u.port
      rw [hs]
      refine ⟨fun _ => .inl (List.cons_ne_nil 47 s), fun _ => ?_⟩
      exact hport
  · obtain ⟨s, hs⟩ := List.head?_eq_some_iff.mp (u.path_slash hpath)
    have hport := portAt_slash (text "rtmp://") u.host s
    rw [HostUrl.bare, hs, reaches_host addr u.host_clear (.inr rfl)]
    exact hport

/-- `rtmp://a:8080` -/
def noPath : HostUrl where
  host := [97]
  port := 8080
  path := []
  host_ne_nil := List.cons_ne_nil 97 []
  host_clear := List.forall_mem_singleton.mpr (by decide)
  path_slash := fun h => absurd rfl h

/-- The client connects to port 1935. -/
theorem parseUrl_noPath : ¬ Reaches {} noPath.withPort noPath.host noPath.port := by
  have hport := portAt_colon_end (text "rtmp://") noPath.host noPath.port
  intro h
  have h' := (reaches_host {} noPath.host_clear (.inl rfl)).mp h
  exact absurd (hport.symm.trans h') (by decide)

end RtmpClient
end TmmsServer
