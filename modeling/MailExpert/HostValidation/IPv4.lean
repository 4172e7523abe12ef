import MailExpert.HostValidation.Addresses

/-!
# Private IPv4 addresses

`isPrivateIPv4` is membership in the listed blocks (`isPrivateIPv4_iff`).
-/

namespace MailExpert.HostValidation

open Numbers Texts

variable {ip base : IPv4} {bits : Nat}

theorem not_mem_toDigits {n : Nat} {c : Char} (hc : c.isDigit = false) : c ∉ Nat.toDigits 10 n := fun hmem => by
  rw [Nat.isDigit_of_mem_toDigits (by omega) (by omega) hmem] at hc
  cases hc

/-- The parts of a dotted text are its numbers. -/
theorem numbers_text : (ip.text.splitOn '.').map number = ip.octets.map fun n : Nat => some (n : Int) := by
  rw [IPv4.text, List.splitOn_intercalate, List.map_map]
  · exact List.map_congr_left fun n _ => number_toDigits
  · intro l hl
    obtain ⟨n, -, rfl⟩ := List.mem_map.mp hl
    exact not_mem_toDigits (by decide)
  · simp [IPv4.octets]

theorem value_lt : ip.value < 2 ^ 32 := by
  simp only [IPv4.value]
  omega

theorem ipv4ToLong_text : ipv4ToLong ip.text = some (ip.value : Int) := by
  rw [ipv4ToLong, numbers_text]
  have ha := shl_toNat (n := ip.a) (k := 24) (by omega) (by omega)
  have hb := shl_toNat (n := ip.b) (k := 16) (by omega) (by omega)
  have hc := shl_toNat (n := ip.c) (k := 8) (by omega) (by omega)
  have hd := natCast_toNat (n := ip.d) (by omega)
  have hab := or_toNat ha hb (by omega)
  have habc := or_toNat (x := ip.a * 256 + ip.b) (k := 16) (hab.trans (by omega)) hc (by omega)
  have habcd := or_toNat (x := (ip.a * 256 + ip.b) * 256 + ip.c) (k := 8) (habc.trans (by omega)) hd (by omega)
  exact congrArg (fun n : Nat => some (n : Int)) habcd

/-- The mask test compares the leading bits. -/
theorem inCidr_text (hbits : bits ≤ 32) : inCidr ip.text base.text bits = Cidr.contains ⟨base, bits⟩ ip := by
  unfold inCidr Cidr.contains
  simp only [ipv4ToLong_text, Numbers.and, ofInt32_inj, toInt32_natCast]
  congr 1
  split
  case isTrue hzero =>
    subst hzero
    have hip : ip.value / 2 ^ 32 = 0 := Nat.div_eq_of_lt value_lt
    have hbase : base.value / 2 ^ 32 = 0 := Nat.div_eq_of_lt value_lt
    rw [Nat.sub_zero, hip, hbase]
    simp [toInt32]
  case isFalse hpos =>
    have hmask : toInt32 (unsigned (shl (Numbers.not (some 0)) (32 - bits))) = BitVec.allOnes 32 <<< (32 - bits) := by
      rw [toInt32_unsigned, shl, toInt32_ofInt32, Numbers.not, toInt32_ofInt32, Nat.mod_eq_of_lt (by omega)]
      rfl
    rw [hmask, and_mask_eq_iff, BitVec.toNat_ofNat, BitVec.toNat_ofNat, Nat.mod_eq_of_lt value_lt, Nat.mod_eq_of_lt value_lt]

def privateBlocks : List Cidr := [
  ⟨⟨0, 0, 0, 0⟩, 8⟩, ⟨⟨10, 0, 0, 0⟩, 8⟩, ⟨⟨100, 64, 0, 0⟩, 10⟩, ⟨⟨127, 0, 0, 0⟩, 8⟩, ⟨⟨169, 254, 0, 0⟩, 16⟩, ⟨⟨172, 16, 0, 0⟩, 12⟩,
  ⟨⟨192, 0, 0, 0⟩, 24⟩, ⟨⟨192, 168, 0, 0⟩, 16⟩, ⟨⟨198, 18, 0, 0⟩, 15⟩, ⟨⟨240, 0, 0, 0⟩, 4⟩, ⟨⟨255, 255, 255, 255⟩, 32⟩]

theorem text_injective : Function.Injective IPv4.text := by
  intro ip ip' h
  have hnumbers := numbers_text.symm.trans ((congrArg (fun text => (text.splitOn '.').map number) h).trans numbers_text)
  have hoctets : ip.octets = ip'.octets := List.map_injective_iff.mpr (fun _ _ h => by simpa using h) hnumbers
  cases ip
  cases ip'
  simpa [IPv4.octets, Fin.ext_iff] using hoctets

theorem value_injective : Function.Injective IPv4.value := by
  rintro ⟨a, b, c, d⟩ ⟨a', b', c', d'⟩ h
  simp only [IPv4.value] at h
  simp only [IPv4.mk.injEq]
  omega

theorem isPrivateIPv4_text : isPrivateIPv4 ip.text = privateBlocks.any (·.contains ip) := by
  have hlast : (decide (ip.text = "255.255.255.255".toList)) = Cidr.contains ⟨⟨255, 255, 255, 255⟩, 32⟩ ip := by
    rw [show "255.255.255.255".toList = (IPv4.text ⟨255, 255, 255, 255⟩) by decide]
    simp [Cidr.contains, text_injective.eq_iff, value_injective.eq_iff]
  unfold isPrivateIPv4
  rw [hlast, show "0.0.0.0".toList = IPv4.text ⟨0, 0, 0, 0⟩ by decide, show "10.0.0.0".toList = IPv4.text ⟨10, 0, 0, 0⟩ by decide,
    show "100.64.0.0".toList = IPv4.text ⟨100, 64, 0, 0⟩ by decide, show "127.0.0.0".toList = IPv4.text ⟨127, 0, 0, 0⟩ by decide,
    show "169.254.0.0".toList = IPv4.text ⟨169, 254, 0, 0⟩ by decide, show "172.16.0.0".toList = IPv4.text ⟨172, 16, 0, 0⟩ by decide,
    show "192.0.0.0".toList = IPv4.text ⟨192, 0, 0, 0⟩ by decide, show "192.168.0.0".toList = IPv4.text ⟨192, 168, 0, 0⟩ by decide,
    show "198.18.0.0".toList = IPv4.text ⟨198, 18, 0, 0⟩ by decide, show "240.0.0.0".toList = IPv4.text ⟨240, 0, 0, 0⟩ by decide,
    inCidr_text (by omega), inCidr_text (by omega), inCidr_text (by omega), inCidr_text (by omega), inCidr_text (by omega),
    inCidr_text (by omega), inCidr_text (by omega), inCidr_text (by omega), inCidr_text (by omega), inCidr_text (by omega)]
  simp [privateBlocks, Bool.or_assoc]

/-- An address is private exactly where a listed block contains it. -/
theorem isPrivateIPv4_iff : isPrivateIPv4 ip.text = true ↔ ∃ block ∈ privateBlocks, block.contains ip = true := by
  rw [isPrivateIPv4_text, List.any_eq_true]

end MailExpert.HostValidation
