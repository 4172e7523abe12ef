import MailExpert.HostValidation.IPv6

/-!
# One answer for every notation

A text stands for an address, and `isPrivateIPv6` answers for the address (`isPrivateIPv6_text`): by the IPv4 address it carries where it is
mapped or translated, else by the listed subnets and the IPv4 address of 6to4.
-/

namespace MailExpert.HostValidation

open Numbers Texts

variable {t t' : IPv6Text} {ip : IPv4} {a : Address}

theorem digitValue_lt {c : Char} (h : isHexDigit c = true) : digitValue c < 16 := by
  have hrange : (48 ≤ c.toNat ∧ c.toNat ≤ 57) ∨ (97 ≤ c.toNat ∧ c.toNat ≤ 102) ∨ (65 ≤ c.toNat ∧ c.toNat ≤ 70) := hex_range h
  rw [← Char.ofNat_toNat c]
  generalize c.toNat = n at hrange
  rcases hrange with ⟨h, h'⟩ | ⟨h, h'⟩ | ⟨h, h'⟩ <;> interval_cases n <;> decide

theorem ofDigits_lt {digits : List Char} (h : ∀ c ∈ digits, isHexDigit c = true) : ofDigits 16 digits < 16 ^ digits.length := by
  induction digits using List.reverseRecOn with
  | nil => simp [ofDigits]
  | append_singleton digits c ih =>
    have hc := digitValue_lt (h c (by simp))
    have := ih fun d hd => h d (List.mem_append_left _ hd)
    rw [ofDigits_append, List.length_append, List.length_singleton, pow_succ]
    simp only [List.foldl_cons, List.foldl_nil]
    omega

theorem Group.value_lt (group : Group) : group.value < 65536 :=
  (ofDigits_lt group.hex).trans_le (Nat.pow_le_pow_right (by omega) group.short)

theorem length_groups : t.groups.length = 8 := by
  have hcount := t.count
  unfold IPv6Text.groups
  cases htail : t.tail <;> rw [htail] at hcount <;>
    simp only [List.length_append, List.length_map, List.length_replicate] at hcount ⊢ <;> omega

theorem groups_lt : ∀ g ∈ t.groups, g < 65536 := by
  have hvalues : ∀ groups : List Group, ∀ g ∈ groups.map Group.value, g < 65536 := fun groups g hg => by
    obtain ⟨group, -, rfl⟩ := List.mem_map.mp hg
    exact group.value_lt
  have hdotted : ∀ g ∈ dottedGroups t.dotted, g < 65536 := fun g hg => by
    cases h : t.dotted with
    | none => simp [h, dottedGroups] at hg
    | some ip =>
      simp only [h, dottedGroups, Option.elim_some, IPv4.groups, List.mem_cons, List.not_mem_nil, or_false] at hg
      omega
  intro g hg
  unfold IPv6Text.groups at hg
  cases htail : t.tail with
  | none =>
    rw [htail] at hg
    exact (List.mem_append.mp hg).elim (hvalues _ g) (hdotted g)
  | some tail =>
    rw [htail] at hg
    simp only [List.mem_append] at hg
    rcases hg with (hg | hg) | hg | hg
    · exact hvalues _ g hg
    · rw [List.eq_of_mem_replicate hg]
      omega
    · exact hvalues _ g hg
    · exact hdotted g hg

def IPv6Text.address (t : IPv6Text) : Address := ⟨t.groups, length_groups, groups_lt⟩

def numbers (groups : List Nat) : List Number := groups.map fun n : Nat => some (n : Int)

theorem ipv6Groups_address : ipv6Groups t.text = some (numbers t.address.groups) := ipv6Groups_text

/-! ## What an address is judged by -/

theorem Address.exists_groups (address : Address) : ∃ a b c d e f g h, address.groups = [a, b, c, d, e, f, g, h] :=
  match address with
  | ⟨[a, b, c, d, e, f, g, h], _, _⟩ => ⟨a, b, c, d, e, f, g, h, rfl⟩

/-- The IPv4 address in two groups. -/
def carried (hi lo : Nat) : IPv4 where
  a := ⟨hi / 256 % 256, Nat.mod_lt _ (by decide)⟩
  b := ⟨hi % 256, Nat.mod_lt _ (by decide)⟩
  c := ⟨lo / 256 % 256, Nat.mod_lt _ (by decide)⟩
  d := ⟨lo % 256, Nat.mod_lt _ (by decide)⟩

theorem carried_groups : carried (ip.a * 256 + ip.b) (ip.c * 256 + ip.d) = ip := by
  obtain ⟨a, b, c, d⟩ := ip
  simp only [carried, IPv4.mk.injEq, Fin.ext_iff]
  omega

theorem ipv4FromGroups_carried {hi lo : Nat} (hhi : hi < 65536) (hlo : lo < 65536) :
    ipv4FromGroups (some (hi : Int)) (some (lo : Int)) = (carried hi lo).text := by
  have hand : ∀ n : Nat, n < 65536 → Numbers.and (some (n : Int)) (some 0xff) = some ((n % 256 : Nat) : Int) := fun n hn =>
    and_natCast (k := 8) (by omega) (by omega)
  have hshr : ∀ n : Nat, n < 65536 → shr (some (n : Int)) 8 = some ((n / 256 : Nat) : Int) := fun n hn =>
    shr_natCast (by omega) (by omega)
  have hsmall : ∀ n : Nat, n < 65536 → n / 256 % 256 = n / 256 := fun n hn => by omega
  unfold ipv4FromGroups IPv4.text
  rw [hand hi hhi, hand lo hlo, hshr hi hhi, hshr lo hlo]
  simp only [IPv4.octets, carried, hsmall hi hhi, hsmall lo hlo, List.map_cons, List.map_nil]
  rfl

/-- `BlockList` reads the eight groups that are passed to it. -/
theorem check_groups {subnets : List Subnet} :
    check subnets ([':'].intercalate ((numbers a.groups).map (toText 16))) = some (subnets.any (·.contains a)) := by
  have htexts : (numbers a.groups).map (toText 16) = a.groups.map (Nat.toDigits 16) := by
    unfold numbers
    rw [List.map_map]
    rfl
  have hsplit : ([':'].intercalate (a.groups.map (Nat.toDigits 16))).splitOn ':' = a.groups.map (Nat.toDigits 16) := by
    refine List.splitOn_intercalate _ (fun part hpart => ?_) (fun hnil => ?_)
    · obtain ⟨n, -, rfl⟩ := List.mem_map.mp hpart
      exact isGroup_toDigits.separate.2
    · have := a.eight
      simp [List.map_eq_nil_iff.mp hnil] at this
  have hread : (a.groups.map (Nat.toDigits 16)).map (ofDigits 16) = a.groups := by
    rw [List.map_map]
    exact (List.map_congr_left fun n _ => ofDigits_toDigits (by omega) (by omega)).trans (List.map_id _)
  have haddress : address? ([':'].intercalate (a.groups.map (Nat.toDigits 16))) = some a := by
    unfold address?
    simp only [hsplit, hread]
    rw [dif_pos]
    refine ⟨fun part hpart => ?_, a.eight, a.bits⟩
    obtain ⟨n, hn, rfl⟩ := List.mem_map.mp hpart
    exact ⟨isGroup_toDigits.1, (Nat.length_toDigits_le_iff (by omega) (by omega)).mpr (a.bits n hn), isGroup_toDigits.2⟩
  rw [check, htexts, haddress]
  rfl

/-- The IPv4 address in groups `i` and `i + 1`. -/
def Address.carried (a : Address) (i : Nat) : IPv4 := HostValidation.carried (a.groups.getD i 0) (a.groups.getD (i + 1) 0)

def mapped : Subnet := ⟨⟨[0, 0, 0, 0, 0, 0xffff, 0, 0], rfl, by decide⟩, 96⟩

def nat64 : Subnet := ⟨⟨[0x64, 0xff9b, 0, 0, 0, 0, 0, 0], rfl, by decide⟩, 96⟩

def sixToFour : Subnet := ⟨⟨[0x2002, 0, 0, 0, 0, 0, 0, 0], rfl, by decide⟩, 16⟩

def IPv4.isPrivate (ip : IPv4) : Bool := privateBlocks.any (·.contains ip)

def Address.isPrivate (a : Address) : Bool :=
  if mapped.contains a || nat64.contains a then (a.carried 6).isPrivate
  else sixToFour.contains a && (a.carried 1).isPrivate || PRIVATE_IPV6.any (·.contains a)

section

variable {g0 g1 g2 g3 g4 g5 g6 g7 : Nat} (ha : a.groups = [g0, g1, g2, g3, g4, g5, g6, g7])

include ha

theorem groups_bits : g0 < 65536 ∧ g1 < 65536 ∧ g2 < 65536 ∧ g3 < 65536 ∧ g4 < 65536 ∧ g5 < 65536 ∧ g6 < 65536 ∧ g7 < 65536 := by
  simpa [ha] using a.bits

theorem mapped_contains_iff : mapped.contains a = true ↔ (g0 = 0 ∧ g1 = 0 ∧ g2 = 0 ∧ g3 = 0 ∧ g4 = 0) ∧ g5 = 0xffff := by
  have hbits := groups_bits ha
  simp only [Subnet.contains, mapped, Address.value, ha, List.foldl_cons, List.foldl_nil, decide_eq_true_eq]
  omega

theorem nat64_contains_iff : nat64.contains a = true ↔ g0 = 0x64 ∧ g1 = 0xff9b ∧ g2 = 0 ∧ g3 = 0 ∧ g4 = 0 ∧ g5 = 0 := by
  have hbits := groups_bits ha
  simp only [Subnet.contains, nat64, Address.value, ha, List.foldl_cons, List.foldl_nil, decide_eq_true_eq]
  omega

theorem sixToFour_contains_iff : sixToFour.contains a = true ↔ g0 = 0x2002 := by
  have hbits := groups_bits ha
  simp only [Subnet.contains, sixToFour, Address.value, ha, List.foldl_cons, List.foldl_nil, decide_eq_true_eq]
  omega

theorem carried_six : a.carried 6 = carried g6 g7 := by simp [Address.carried, ha]

theorem carried_one : a.carried 1 = carried g1 g2 := by simp [Address.carried, ha]

end

/-- What `isPrivateIPv6` answers for a text is a property of the address. -/
theorem isPrivateIPv6_text : isPrivateIPv6 t.text = some t.address.isPrivate := by
  unfold isPrivateIPv6
  rw [ipv6Groups_address]
  generalize t.address = a
  obtain ⟨g0, g1, g2, g3, g4, g5, g6, g7, ha⟩ := a.exists_groups
  obtain ⟨h0, h1, h2, h3, h4, h5, h6, h7⟩ := groups_bits ha
  have hcarried : ∀ hi lo : Nat, hi < 65536 → lo < 65536 →
      isPrivateIPv4 (ipv4FromGroups (some (hi : Int)) (some (lo : Int))) = (carried hi lo).isPrivate := fun hi lo hhi hlo => by
    rw [ipv4FromGroups_carried hhi hlo, isPrivateIPv4_text]
    rfl
  simp only [Option.bind_eq_bind, Option.bind_some, check_groups]
  simp only [ha, numbers, part, List.map_cons, List.map_nil, List.take_succ_cons, List.take_zero, List.drop_succ_cons, List.drop_zero,
    List.all_cons, List.all_nil, List.getElem?_cons_zero, List.getElem?_cons_succ, Option.join_some, hcarried g6 g7 h6 h7, hcarried g1 g2 h1 h2]
  have h5' : (g5 : Int) = 65535 ↔ g5 = 65535 := by omega
  have h0' : ((g0 : Int) = 100 ↔ g0 = 100) ∧ ((g0 : Int) = 8194 ↔ g0 = 8194) := by omega
  have h1' : (g1 : Int) = 65435 ↔ g1 = 65435 := by omega
  unfold Address.isPrivate
  simp only [Bool.and_true, Bool.and_eq_true, decide_eq_true_eq, Option.some.injEq, Nat.cast_eq_zero, h5', h0'.1, h0'.2, h1',
    ← mapped_contains_iff ha, ← nat64_contains_iff ha, ← sixToFour_contains_iff ha, carried_six ha, carried_one ha]
  cases mapped.contains a <;> cases nat64.contains a <;> cases sixToFour.contains a <;> cases (carried g1 g2).isPrivate <;> rfl

theorem isPrivate_of_carries (hprivate : isPrivateIPv4 ip.text = true)
    (hcarries : a.groups = [0, 0, 0, 0, 0, 0xffff] ++ ip.groups ∨ a.groups = [0x64, 0xff9b, 0, 0, 0, 0] ++ ip.groups ∨
      ∃ rest, a.groups = 0x2002 :: ip.groups ++ rest) : a.isPrivate = true := by
  have hip : (carried (ip.a * 256 + ip.b) (ip.c * 256 + ip.d)).isPrivate = true := by
    rw [carried_groups, ← hprivate, isPrivateIPv4_text]
    rfl
  unfold Address.isPrivate
  rcases hcarries with ha | ha | ⟨rest, ha⟩
  · rw [if_pos (by simp [mapped_contains_iff ha]), carried_six ha]
    exact hip
  · rw [if_pos (by simp [nat64_contains_iff ha]), carried_six ha]
    exact hip
  · obtain ⟨g0, g1, g2, g3, g4, g5, g6, g7, hgroups⟩ := a.exists_groups
    rw [hgroups] at ha
    simp only [IPv4.groups, List.cons_append, List.nil_append, List.cons.injEq] at ha
    obtain ⟨h0, h1, h2, -⟩ := ha
    rw [if_neg (by simp [mapped_contains_iff hgroups, nat64_contains_iff hgroups, h0]), carried_one hgroups, h1, h2, hip,
      (sixToFour_contains_iff hgroups).mpr h0]
    rfl

/-- Of the address itself, and of the private IPv4 addresses that it carries, whatever the text. -/
theorem notation_independent :
    (∀ t : IPv6Text, ipv6Groups t.text = some (numbers t.address.groups)) ∧
    (∀ a : Address, ∃ answer, ∀ t : IPv6Text, t.address = a → isPrivateIPv6 t.text = some answer) ∧
    (∀ (ip : IPv4) (t : IPv6Text), isPrivateIPv4 ip.text = true →
      (t.address.groups = [0, 0, 0, 0, 0, 0xffff] ++ ip.groups ∨ t.address.groups = [0x64, 0xff9b, 0, 0, 0, 0] ++ ip.groups ∨
        ∃ rest, t.address.groups = 0x2002 :: ip.groups ++ rest) → isPrivateIPv6 t.text = some true) ∧
    ∀ ip : IPv4, isPrivateIPv4 ip.text = true ↔ ∃ block ∈ privateBlocks, block.contains ip = true := by
  refine ⟨fun t => ipv6Groups_address, fun a => ⟨a.isPrivate, ?_⟩, fun ip t hprivate hcarries => ?_, fun ip => isPrivateIPv4_iff⟩
  · rintro t rfl
    exact isPrivateIPv6_text
  · rw [isPrivateIPv6_text]
    exact congrArg some (isPrivate_of_carries hprivate hcarries)

private def mappedLoopback : IPv6Text where
  head := []
  tail := some [⟨['F', 'F', 'F', 'F'], List.all_eq_true.mp rfl, by decide, by decide⟩]
  dotted := some (carried 0x7f00 1)
  zone := some ['e', 't', 'h', '0']
  count := by decide
  zoned z hz := by
    cases hz
    exact ⟨by decide, fun c hc => .inl (List.all_eq_true.mp (rfl : ['e', 't', 'h', '0'].all Char.isAlphanum = true) c hc)⟩

theorem notation_independent_loopback : mappedLoopback.text = "::FFFF:127.0.0.1%eth0".toList ∧ isPrivateIPv6 mappedLoopback.text = some true :=
  ⟨by decide +kernel, notation_independent.2.2.1 ⟨127, 0, 0, 1⟩ mappedLoopback (by decide +kernel) (.inl (by decide +kernel))⟩

end MailExpert.HostValidation
