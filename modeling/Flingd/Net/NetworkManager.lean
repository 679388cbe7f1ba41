import Flingd.App.ApplicationManager
import Flingd.Mdns.Packet

/-! `NetworkManager.cpp`: the address of the device, as the interfaces of the machine have it. -/
namespace Flingd.Net
open App (Fault)
open Mdns (inetNtop4)

/-- `sin_addr`, which is in network order. -/
structure InAddr where
  a : UInt8
  b : UInt8
  c : UInt8
  d : UInt8
deriving DecidableEq

def InAddr.ntohl (addr : InAddr) : BitVec 32 :=
  addr.a.toBitVec ++ addr.b.toBitVec ++ addr.c.toBitVec ++ addr.d.toBitVec

/-- The address of an interface has another family where it is not one of `AF_INET`. -/
inductive Sockaddr where
  | inet (sin_addr : InAddr)
  | other
deriving DecidableEq

structure Ifaddrs where
  ifa_name : Bytes
  /-- `none` where it is NULL. -/
  ifa_addr : Option Sockaddr
  /-- `IFF_UP` is among the flags. -/
  up : Bool
deriving DecidableEq

def octets (addr : BitVec 32) : List Nat :=
  [(addr.sshiftRight 24 &&& 0xFF).toNat, (addr.sshiftRight 16 &&& 0xFF).toNat,
    (addr.sshiftRight 8 &&& 0xFF).toNat, (addr &&& 0xFF).toNat]

def addressText (addr : InAddr) : Bytes := join 46 ((octets addr.ntohl).map decimal)

/-- The loop over the interfaces. The family is read of an address that must be there. -/
def findAddr (name : Bytes) : List Ifaddrs → Except Fault Bytes
  | [] => .ok []
  | current :: rest =>
    if iequals name current.ifa_name then
      match current.ifa_addr with
      | none => .error .misused
      | some (.inet addr) => if current.up then .ok (addressText addr) else findAddr name rest
      | some .other => findAddr name rest
    else findAddr name rest

/-- `getifaddrs` is `none` where it fails. -/
def getIpAddrByName (getifaddrs : Option (List Ifaddrs)) (name : Bytes) : Except Fault Bytes :=
  match getifaddrs with
  | none => .ok []
  | some ifap => findAddr name ifap

/-- The names are tried one after the other. -/
def firstAddr (getifaddrs : Option (List Ifaddrs)) : List Bytes → Except Fault Bytes
  | [] => .ok []
  | name :: names => do
    let ip ← getIpAddrByName getifaddrs name
    if iequals ip [] then firstAddr getifaddrs names else .ok ip

/-- The names of a platform: `LINUX` and `FFOS` have one list, `APPLE` has the other. -/
inductive Platform where
  | linux
  | apple

def Platform.names : Platform → List Bytes
  | .linux => [str "wlan0", str "eth0"]
  | .apple => [str "en0", str "en1", str "en2", str "en3", str "en4"]

def getIpAddr (platform : Platform) (getifaddrs : Option (List Ifaddrs)) : Except Fault Bytes :=
  firstAddr getifaddrs platform.names

/-! ### What the address is -/

theorem getElem_mask : ∀ i : Fin 32, (0xFF#32)[i.1] = decide (i.1 < 8) := by decide

theorem toNat_octet (x : BitVec 32) {k : Nat} (hk : k ≤ 24) :
    (x.sshiftRight k &&& 0xFF).toNat = x.toNat / 2 ^ k % 256 := by
  have hbits : x.sshiftRight k &&& 0xFF#32 = (x.extractLsb' k 8).setWidth 32 := by
    ext i hi
    have hmask : (0xFF#32)[i] = decide (i < 8) := getElem_mask ⟨i, hi⟩
    have hshift (hin : k + i < 32) : (x.sshiftRight k)[i] = x[k + i] := by
      rw [BitVec.getElem_sshiftRight, dif_pos hin]
    rw [BitVec.getElem_and, hmask, BitVec.getElem_setWidth, BitVec.getLsbD_extractLsb']
    by_cases h8 : i < 8
    · have hin : k + i < 32 := by omega
      simp only [h8, decide_true, Bool.and_true, Bool.true_and, hshift hin]
      exact (BitVec.getLsbD_eq_getElem hin).symm
    · simp only [h8, decide_false, Bool.and_false, Bool.false_and]
  refine (congrArg BitVec.toNat hbits).trans ?_
  rw [BitVec.toNat_setWidth, BitVec.extractLsb'_toNat, Nat.shiftRight_eq_div_pow]
  omega

theorem toNat_ntohl (addr : InAddr) : addr.ntohl.toNat =
    ((addr.a.toNat * 256 + addr.b.toNat) * 256 + addr.c.toNat) * 256 + addr.d.toNat := by
  have happend {n : Nat} (x : BitVec n) (y : UInt8) :
      (x ++ y.toBitVec).toNat = x.toNat * 256 + y.toNat := by
    rw [BitVec.toNat_append, ← Nat.shiftLeft_add_eq_or_of_lt y.toBitVec.isLt, Nat.shiftLeft_eq]
    rfl
  rw [InAddr.ntohl, happend, happend, happend]
  rfl

theorem octets_ntohl (addr : InAddr) :
    octets addr.ntohl = [addr.a.toNat, addr.b.toNat, addr.c.toNat, addr.d.toNat] := by
  have hvalue := toNat_ntohl addr
  have ha := addr.a.toNat_lt
  have hb := addr.b.toNat_lt
  have hc := addr.c.toNat_lt
  have hd := addr.d.toNat_lt
  have hlast : (addr.ntohl &&& 0xFF).toNat = addr.ntohl.toNat / 2 ^ 0 % 256 := by
    rw [← toNat_octet addr.ntohl (Nat.zero_le 24), BitVec.sshiftRight_zero]
  rw [octets, toNat_octet _ (by omega), toNat_octet _ (by omega), toNat_octet _ (by omega), hlast,
    hvalue]
  simp only [List.cons.injEq, and_true]
  refine ⟨?_, ?_, ?_, ?_⟩ <;> omega

/-- The text of an address is the one that `inet_ntop` has for it. -/
theorem addressText_eq (addr : InAddr) :
    addressText addr = inetNtop4 [addr.a, addr.b, addr.c, addr.d] := by
  rw [addressText, octets_ntohl]
  rfl

theorem addressText_ne_nil (addr : InAddr) : addressText addr ≠ [] := by
  rw [addressText_eq, inetNtop4, List.map_cons, List.map_cons, join_cons_cons]
  exact fun h => decimal_ne_nil _ (List.append_eq_nil_iff.mp h).1

def Online (names : List Bytes) (ifap : List Ifaddrs) (addr : InAddr) : Prop :=
  ∃ i ∈ ifap, (∃ name ∈ names, iequals name i.ifa_name = true) ∧ i.ifa_addr = some (.inet addr) ∧
    i.up = true

variable {ifap : List Ifaddrs} {ip name : Bytes} {names : List Bytes}

theorem findAddr_ok (h : findAddr name ifap = .ok ip) :
    (ip = [] ∧ ∀ addr, ¬ Online [name] ifap addr) ∨
      ∃ addr, Online [name] ifap addr ∧ ip = addressText addr := by
  induction ifap with
  | nil =>
    cases h
    exact .inl ⟨rfl, fun addr ⟨i, hi, _⟩ => absurd hi List.not_mem_nil⟩
  | cons current rest ih =>
    have hlater (h : findAddr name rest = .ok ip)
        (hcurrent : ∀ addr, ¬ (iequals name current.ifa_name = true ∧
          current.ifa_addr = some (.inet addr) ∧ current.up = true)) :
        (ip = [] ∧ ∀ addr, ¬ Online [name] (current :: rest) addr) ∨
          ∃ addr, Online [name] (current :: rest) addr ∧ ip = addressText addr := by
      rcases ih h with ⟨hnil, hnone⟩ | ⟨addr, ⟨i, hi, honline⟩, hip⟩
      · refine .inl ⟨hnil, fun addr ⟨i, hi, hname, haddr, hup⟩ => ?_⟩
        rcases List.mem_cons.mp hi with rfl | hi
        · simp only [List.mem_singleton, exists_eq_left] at hname
          exact hcurrent addr ⟨hname, haddr, hup⟩
        · exact hnone addr ⟨i, hi, hname, haddr, hup⟩
      · exact .inr ⟨addr, ⟨i, List.mem_cons_of_mem _ hi, honline⟩, hip⟩
    unfold findAddr at h
    split at h
    · rename_i hname
      split at h
      · cases h
      · rename_i addr haddr
        split at h
        · rename_i hup
          cases h
          exact .inr ⟨addr, ⟨current, List.mem_cons_self, ⟨name, List.mem_cons_self, hname⟩, haddr,
            hup⟩, rfl⟩
        · rename_i hup
          exact hlater h fun _ hcurrent => hup hcurrent.2.2
      · rename_i haddr
        refine hlater h fun addr hcurrent => ?_
        rw [haddr] at hcurrent
        cases hcurrent.2.1
    · rename_i hname
      exact hlater h fun _ hcurrent => hname hcurrent.1

theorem online_cons {addr : InAddr} : Online (name :: names) ifap addr ↔
    Online [name] ifap addr ∨ Online names ifap addr := by
  unfold Online
  simp only [List.mem_cons, exists_eq_or_imp, List.not_mem_nil, or_false, exists_eq_left]
  constructor
  · rintro ⟨i, hi, hname | hname, hrest⟩
    · exact .inl ⟨i, hi, hname, hrest⟩
    · exact .inr ⟨i, hi, hname, hrest⟩
  · rintro (⟨i, hi, hname, hrest⟩ | ⟨i, hi, hname, hrest⟩)
    · exact ⟨i, hi, .inl hname, hrest⟩
    · exact ⟨i, hi, .inr hname, hrest⟩

theorem firstAddr_ok (h : firstAddr (some ifap) names = .ok ip) :
    (ip = [] ∧ ∀ addr, ¬ Online names ifap addr) ∨
      ∃ addr, Online names ifap addr ∧ ip = addressText addr := by
  induction names with
  | nil =>
    cases h
    exact .inl ⟨rfl, fun addr ⟨_, _, ⟨name, hname, _⟩, _⟩ => absurd hname List.not_mem_nil⟩
  | cons name names ih =>
    obtain ⟨ip', hip', h⟩ := Outcome.bind_eq_ok.mp h
    have hfound := findAddr_ok hip'
    split at h
    · rename_i hempty
      have hnil : ip' = [] := by simpa [iequals] using hempty
      rcases hfound with ⟨-, hnone⟩ | ⟨addr, -, htext⟩
      · rcases ih h with ⟨hip, hrest⟩ | ⟨addr, honline, hip⟩
        · exact .inl ⟨hip, fun addr hon => (online_cons.mp hon).elim (hnone addr) (hrest addr)⟩
        · exact .inr ⟨addr, online_cons.mpr (.inr honline), hip⟩
      · exact absurd (htext.symm.trans hnil) (addressText_ne_nil addr)
    · rename_i hsome
      cases h
      rcases hfound with ⟨hnil, -⟩ | ⟨addr, honline, hip⟩
      · exact absurd (by rw [hnil]; rfl) hsome
      · exact .inr ⟨addr, online_cons.mpr (.inl honline), hip⟩

/-- The device has an address where one of its interfaces is online, and it is that of one of them. -/
theorem getIpAddr_ok {platform : Platform} (h : getIpAddr platform (some ifap) = .ok ip) :
    (ip = [] ∧ ∀ addr, ¬ Online platform.names ifap addr) ∨
      ∃ addr, Online platform.names ifap addr ∧ ip = inetNtop4 [addr.a, addr.b, addr.c, addr.d] := by
  simpa only [addressText_eq] using firstAddr_ok h

end Flingd.Net
