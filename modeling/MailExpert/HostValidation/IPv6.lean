import MailExpert.HostValidation.IPv4

/-!
# The groups of an IPv6 text

The steps of `ipv6Groups` on a text that `net.isIPv6` accepts: it is lowered and its zone cut off (`lowered_text`), a dotted end becomes two
groups (`undot_body`), and the groups are split and the zeros of `::` put in (`splitGroups_joined`).
-/

namespace MailExpert.HostValidation

open Numbers Texts

variable {t : IPv6Text} {ip : IPv4} {c : Char} {parts head tail : List (List Char)}

theorem hex_range (h : isHexDigit c = true) :
    (48 ≤ c.toNat ∧ c.toNat ≤ 57) ∨ (97 ≤ c.toNat ∧ c.toNat ≤ 102) ∨ (65 ≤ c.toNat ∧ c.toNat ≤ 70) := by
  simp only [isHexDigit, Char.isDigit, Bool.or_eq_true, Bool.and_eq_true, decide_eq_true_eq, ge_iff_le, Char.le_def,
    UInt32.le_iff_toNat_le] at h
  exact or_assoc.mp h

theorem hex_toLower (h : isHexDigit c = true) : isHexDigit c.toLower = true ∧ digitValue c.toLower = digitValue c := by
  have hrange := hex_range h
  rw [← Char.ofNat_toNat c]
  generalize c.toNat = n at hrange
  rcases hrange with ⟨h, h'⟩ | ⟨h, h'⟩ | ⟨h, h'⟩ <;> interval_cases n <;> decide

theorem hex_ne (h : isHexDigit c = true) : c ≠ ':' ∧ c ≠ '.' ∧ c ≠ '%' := by
  refine ⟨?_, ?_, ?_⟩ <;> rintro rfl <;> cases h

theorem ofDigits_toLower {digits : List Char} (h : ∀ c ∈ digits, isHexDigit c = true) :
    ofDigits 16 (digits.map Char.toLower) = ofDigits 16 digits := by
  unfold ofDigits
  rw [List.foldl_map]
  exact List.foldl_ext _ _ _ fun n c hc => by rw [(hex_toLower (h c hc)).2]

def IsGroup (part : List Char) : Prop := part ≠ [] ∧ ∀ c ∈ part, isHexDigit c = true

theorem IsGroup.separate {part : List Char} (h : IsGroup part) : part ≠ [] ∧ ':' ∉ part :=
  ⟨h.1, fun hmem => (hex_ne (h.2 _ hmem)).1 rfl⟩

theorem Group.isGroup (group : Group) : IsGroup group.digits := ⟨group.nonempty, group.hex⟩

theorem isGroup_toDigits {n : Nat} : IsGroup (Nat.toDigits 16 n) :=
  ⟨Nat.toDigits_ne_nil, fun _ hc => isHexDigit_of_mem_toDigits (by omega) (by omega) hc⟩

theorem map_intercalate {f : Char → Char} {a : Char} : ([a].intercalate parts).map f = [f a].intercalate (parts.map (·.map f)) := by
  induction parts with
  | nil => rfl
  | cons part parts ih =>
    cases parts with
    | nil => simp
    | cons part' parts =>
      rw [List.intercalate_cons_cons, List.map_append, List.map_append, ih]
      simp [List.intercalate_cons_cons]

theorem mem_intercalate {a : Char} (h : c ∈ [a].intercalate parts) : c = a ∨ ∃ part ∈ parts, c ∈ part := by
  induction parts with
  | nil => cases h
  | cons part parts ih =>
    cases parts with
    | nil => exact .inr ⟨part, List.mem_cons_self, by simpa using h⟩
    | cons part' parts =>
      rw [List.intercalate_cons_cons, List.mem_append, List.mem_append, List.mem_singleton] at h
      rcases h with (h | h) | h
      · exact .inr ⟨part, List.mem_cons_self, h⟩
      · exact .inl h
      · exact (ih h).imp_right fun ⟨p, hp, hc⟩ => ⟨p, List.mem_cons_of_mem _ hp, hc⟩

/-- The join of groups is split into them again. -/
theorem splitColon_intercalate (h : ∀ part ∈ parts, IsGroup part) : splitColon ([':'].intercalate parts) = parts := by
  unfold splitColon
  cases parts with
  | nil => rfl
  | cons part parts =>
    obtain ⟨c, part, rfl⟩ := List.exists_cons_of_ne_nil (h part List.mem_cons_self).1
    rw [if_neg (by cases parts <;> simp), List.splitOn_intercalate _ (fun p hp => (h p hp).separate.2) (by simp)]

/-- Groups without `::` come as they are, and `::` stands for as many zeros as are missing. -/
theorem splitGroups_joined (hhead : ∀ part ∈ head, IsGroup part) (htail : ∀ part ∈ tail, IsGroup part) (hcount : head.length + tail.length ≤ 8) :
    splitGroups (joined head none) = some head ∧
      splitGroups (joined head (some tail)) = some (head ++ List.replicate (8 - head.length - tail.length) ['0'] ++ tail) := by
  have hhead' : ∀ part ∈ head, part ≠ [] ∧ ':' ∉ part := fun part hpart => (hhead part hpart).separate
  have htail' : ∀ part ∈ tail, part ≠ [] ∧ ':' ∉ part := fun part hpart => (htail part hpart).separate
  constructor
  · unfold splitGroups joined
    rw [splitPair_intercalate hhead']
    simp only [List.headD_cons, splitColon_intercalate hhead]
    simp
  · unfold splitGroups joined
    rw [splitPair_intercalate_pair hhead' htail']
    simp only [List.headD_cons, splitColon_intercalate hhead, List.getElem?_cons_succ, List.getElem?_cons_zero, Option.elim_some,
      splitColon_intercalate htail]
    rw [if_neg (by simp), if_pos hcount]

def IPv6Text.plain (t : IPv6Text) : List (List Char) × Option (List (List Char)) := t.parts fun ip => ip.groups.map (Nat.toDigits 16)

theorem IPv6Text.count' : t.plain.1.length + (t.plain.2.getD []).length ≤ 8 := by
  have hcount := t.count
  have hlast : (t.dotted.elim [] fun ip => ip.groups.map (Nat.toDigits 16)).length = (dottedGroups t.dotted).length := by
    cases t.dotted <;> simp [dottedGroups]
  unfold IPv6Text.plain IPv6Text.parts
  cases htail : t.tail <;> rw [htail] at hcount <;> simp only [List.length_append, List.length_map, hlast, Option.getD_none,
    Option.getD_some, List.length_nil] at hcount ⊢ <;> omega

theorem isGroup_plain : (∀ part ∈ t.plain.1, IsGroup part) ∧ ∀ part ∈ t.plain.2.getD [], IsGroup part := by
  have hgroups : ∀ groups : List Group, ∀ part ∈ groups.map Group.digits ++ t.dotted.elim [] (fun ip => ip.groups.map (Nat.toDigits 16)),
      IsGroup part := by
    intro groups part hpart
    rcases List.mem_append.mp hpart with hpart | hpart
    · obtain ⟨group, -, rfl⟩ := List.mem_map.mp hpart
      exact group.isGroup
    · cases hdotted : t.dotted with
      | none => simp [hdotted] at hpart
      | some ip =>
        rw [hdotted] at hpart
        obtain ⟨n, -, rfl⟩ := List.mem_map.mp hpart
        exact isGroup_toDigits
  unfold IPv6Text.plain IPv6Text.parts
  cases t.tail with
  | none => exact ⟨hgroups t.head, by simp⟩
  | some tail => exact ⟨fun part hpart => hgroups t.head part (List.mem_append_left _ hpart), hgroups tail⟩

/-! ## The text is lowered -/

def Group.lower (group : Group) : Group where
  digits := group.digits.map Char.toLower
  hex c hc := by
    obtain ⟨d, hd, rfl⟩ := List.mem_map.mp hc
    exact (hex_toLower (group.hex d hd)).1
  nonempty := by simpa using group.nonempty
  short := by simpa using group.short

theorem Group.value_lower (group : Group) : group.lower.value = group.value := ofDigits_toLower group.hex

def IPv6Text.lower (t : IPv6Text) : IPv6Text where
  head := t.head.map Group.lower
  tail := t.tail.map (·.map Group.lower)
  dotted := t.dotted
  zone := t.zone
  count := by
    have hcount := t.count
    cases htail : t.tail <;> rw [htail] at hcount <;> simpa using hcount
  zoned := t.zoned

@[simp] theorem lower_head : t.lower.head = t.head.map Group.lower := rfl

@[simp] theorem lower_tail : t.lower.tail = t.tail.map (·.map Group.lower) := rfl

@[simp] theorem lower_dotted : t.lower.dotted = t.dotted := rfl

theorem groups_lower : t.lower.groups = t.groups := by
  have hvalues : ∀ groups : List Group, (groups.map Group.lower).map Group.value = groups.map Group.value := fun groups => by
    rw [List.map_map]
    exact List.map_congr_left fun group _ => group.value_lower
  unfold IPv6Text.groups
  cases htail : t.tail <;> simp only [lower_tail, htail, Option.map_none, Option.map_some, lower_head, lower_dotted, hvalues]

theorem mem_text (hc : c ∈ ip.text) : c = '.' ∨ c.isDigit = true := by
  refine (mem_intercalate hc).imp_right ?_
  rintro ⟨part, hpart, hc⟩
  obtain ⟨n, -, rfl⟩ := List.mem_map.mp hpart
  exact Nat.isDigit_of_mem_toDigits (by omega) (by omega) hc

theorem digit_hex (h : c.isDigit = true) : isHexDigit c = true := by simp [isHexDigit, h]

theorem digit_toLower (h : c.isDigit = true) : c.toLower = c := by
  have hrange : 48 ≤ c.toNat ∧ c.toNat ≤ 57 := by
    simp only [Char.isDigit, Bool.and_eq_true, decide_eq_true_eq, ge_iff_le, UInt32.le_iff_toNat_le] at h
    exact h
  rw [← Char.ofNat_toNat c]
  generalize c.toNat = n at hrange
  obtain ⟨h, h'⟩ := hrange
  interval_cases n <;> rfl

theorem text_lower : ip.text.map Char.toLower = ip.text := by
  refine (List.map_congr_left fun c hc => ?_).trans (List.map_id _)
  rcases mem_text hc with rfl | hdigit
  · rfl
  · exact digit_toLower hdigit

theorem joined_map {f : Char → Char} {o : Option (List (List Char))} (hf : f ':' = ':') :
    (joined head o).map f = joined (head.map (·.map f)) (o.map (·.map (·.map f))) := by
  cases o <;> simp [joined, map_intercalate, hf]

theorem body_lower : t.lower.body = t.body.map Char.toLower := by
  unfold IPv6Text.body IPv6Text.parts
  cases htail : t.tail <;> cases hdotted : t.dotted <;>
    simp [htail, hdotted, joined_map, Function.comp_def, Group.lower, text_lower, show Char.toLower ':' = ':' from rfl]

theorem mem_joined {o : Option (List (List Char))} (hc : c ∈ joined head o) : c = ':' ∨ ∃ part ∈ head ++ o.getD [], c ∈ part := by
  cases o with
  | none => simpa using mem_intercalate hc
  | some tail =>
    simp only [joined, List.mem_append, List.mem_cons] at hc
    rcases hc with hc | hc | hc | hc
    · exact (mem_intercalate hc).imp_right fun ⟨p, hp, hc⟩ => ⟨p, List.mem_append_left _ hp, hc⟩
    · exact .inl hc
    · exact .inl hc
    · exact (mem_intercalate hc).imp_right fun ⟨p, hp, hc⟩ => ⟨p, List.mem_append_right _ hp, hc⟩

theorem mem_body (hc : c ∈ t.body) : c = ':' ∨ isHexDigit c = true ∨ c = '.' ∧ t.dotted.isSome = true := by
  refine (mem_joined hc).imp_right ?_
  have hmem : ∀ groups : List Group, (∃ part ∈ groups.map Group.digits ++ t.dotted.elim [] (fun ip => [ip.text]), c ∈ part) →
      isHexDigit c = true ∨ c = '.' ∧ t.dotted.isSome = true := by
    rintro groups ⟨part, hpart, hc⟩
    rcases List.mem_append.mp hpart with hpart | hpart
    · obtain ⟨group, -, rfl⟩ := List.mem_map.mp hpart
      exact .inl (group.hex c hc)
    · cases hdotted : t.dotted with
      | none => simp [hdotted] at hpart
      | some ip =>
        simp only [hdotted, Option.elim_some, List.mem_singleton] at hpart
        subst hpart
        exact (mem_text hc).symm.imp digit_hex fun h => ⟨h, rfl⟩
  unfold IPv6Text.parts
  cases t.tail with
  | none => simpa using hmem t.head
  | some tail =>
    intro hpart
    apply hmem (t.head ++ tail)
    simpa [or_assoc] using hpart

/-- Lowered, and without the zone. -/
theorem lowered_text : lowered t.text = t.lower.body := by
  unfold lowered IPv6Text.text
  rw [List.map_append, ← body_lower, List.takeWhile_append_of_pos]
  · cases t.zone with
    | none => simp
    | some z => simp [show Char.toLower '%' = '%' from rfl]
  · intro c hc
    rw [decide_eq_true_eq]
    rintro rfl
    rcases mem_body hc with h | h | ⟨h, -⟩ <;> cases h

/-- What stands before the dotted end, whatever that is. -/
theorem joined_last (h : t.dotted.isSome = true) : ∃ before, ∀ x y,
    joined (t.parts fun _ => [x]).1 (t.parts fun _ => [x]).2 = before ++ ':' :: x ∧
    joined (t.parts fun _ => [x, y]).1 (t.parts fun _ => [x, y]).2 = before ++ ':' :: (x ++ ':' :: y) := by
  obtain ⟨ip, hdotted⟩ := Option.isSome_iff_exists.mp h
  have hcount := t.count
  have htwo : ∀ (parts : List (List Char)) (x y : List Char), parts ≠ [] →
      [':'].intercalate (parts ++ [x]) = [':'].intercalate parts ++ ':' :: x ∧
      [':'].intercalate (parts ++ [x, y]) = [':'].intercalate parts ++ ':' :: (x ++ ':' :: y) := fun parts x y hne => by
    refine ⟨intercalate_append_singleton hne, ?_⟩
    rw [← List.singleton_append (x := x), ← List.append_assoc, intercalate_append_singleton (by simp), intercalate_append_singleton hne]
    simp
  unfold IPv6Text.parts
  cases htail : t.tail with
  | none =>
    rw [htail] at hcount
    have hne : t.head.map Group.digits ≠ [] := by
      rw [ne_eq, List.map_eq_nil_iff]
      intro hnil
      simp [hnil, hdotted, dottedGroups, IPv4.groups] at hcount
    simpa [hdotted, joined] using ⟨_, fun x y => htwo _ x y hne⟩
  | some tail =>
    by_cases hnil : tail = []
    · exact ⟨[':'].intercalate (t.head.map Group.digits) ++ [':'], fun x y => by simp [hdotted, joined, hnil]⟩
    · refine ⟨[':'].intercalate (t.head.map Group.digits) ++ ':' :: ':' :: [':'].intercalate (tail.map Group.digits), fun x y => ?_⟩
      obtain ⟨h1, h2⟩ := htwo (tail.map Group.digits) x y (by simpa using hnil)
      simp [hdotted, joined, h1, h2]

theorem toText_pair {a b : Nat} (ha : a < 256) (hb : b < 256) :
    toText 16 (or (shl (some (a : Int)) 8) (some (b : Int))) = Nat.toDigits 16 (a * 256 + b) := by
  have hor := or_toNat (shl_toNat (n := a) (k := 8) (by omega) (by omega)) (natCast_toNat (n := b) (by omega)) (by omega)
  rw [Numbers.or, toInt32_ofInt32] at hor
  rw [Numbers.or, eq_of_toNat hor (by omega)]
  rfl

theorem colon_not_mem_text : ':' ∉ ip.text := fun h => by rcases mem_text h with h | h <;> cases h

theorem undot_body : undot t.body = joined t.plain.1 t.plain.2 := by
  unfold undot
  cases hdotted : t.dotted with
  | none =>
    have hno : '.' ∉ t.body := fun h => by
      rcases mem_body h with h | h | ⟨-, h⟩
      · cases h
      · cases h
      · simp [hdotted] at h
    rw [if_neg hno]
    unfold IPv6Text.body IPv6Text.plain IPv6Text.parts
    rw [hdotted]
    rfl
  | some ip =>
    obtain ⟨before, hlast⟩ := joined_last (t := t) (by simp [hdotted])
    have hbody : t.body = before ++ ':' :: ip.text := by
      refine Eq.trans ?_ (hlast ip.text []).1
      unfold IPv6Text.body IPv6Text.parts
      rw [hdotted]
      rfl
    have hplain : joined t.plain.1 t.plain.2 =
        before ++ ':' :: (Nat.toDigits 16 (ip.a * 256 + ip.b) ++ ':' :: Nat.toDigits 16 (ip.c * 256 + ip.d)) := by
      refine Eq.trans ?_ (hlast (Nat.toDigits 16 (ip.a * 256 + ip.b)) (Nat.toDigits 16 (ip.c * 256 + ip.d))).2
      unfold IPv6Text.plain IPv6Text.parts
      simp only [hdotted, Option.elim_some, IPv4.groups, List.map_cons, List.map_nil]
    have hdot : '.' ∈ t.body := by
      rw [hbody]
      exact List.mem_append_right _ (List.mem_cons_of_mem _ (by simp [IPv4.text, IPv4.octets]))
    rw [if_pos hdot, hbody, rtakeWhile_append colon_not_mem_text, rdropWhile_append colon_not_mem_text, numbers_text, hplain]
    simp only [IPv4.octets, List.map_cons, List.map_nil, part, List.getElem?_cons_zero, List.getElem?_cons_succ, Option.join_some,
      toText_pair (Fin.is_lt _) (Fin.is_lt _)]
    simp

theorem parseHex_group {part : List Char} (h : IsGroup part) :
    parseHex (if part = [] then ['0'] else part) = some (ofDigits 16 part : Int) := by
  rw [if_neg h.1, parseHex_digits h.1 h.2]

/-- The values of the parts are the groups of the address. -/
theorem values_plain : t.groups = match t.plain.2 with
    | none => t.plain.1.map (ofDigits 16)
    | some tail => t.plain.1.map (ofDigits 16) ++ List.replicate (8 - t.plain.1.length - tail.length) 0 ++ tail.map (ofDigits 16) := by
  have hlast : ∀ groups : List Group, (groups.map Group.digits ++ t.dotted.elim [] (fun ip => ip.groups.map (Nat.toDigits 16))).map (ofDigits 16) =
      groups.map Group.value ++ dottedGroups t.dotted := fun groups => by
    rw [List.map_append, List.map_map]
    congr 1
    cases t.dotted with
    | none => rfl
    | some ip =>
      simp only [Option.elim_some, dottedGroups, List.map_map]
      exact (List.map_congr_left fun n _ => ofDigits_toDigits (by omega) (by omega)).trans (List.map_id _)
  unfold IPv6Text.groups IPv6Text.plain IPv6Text.parts
  cases t.tail with
  | none => exact (hlast t.head).symm
  | some tail =>
    have hlength : (tail.map Group.digits ++ t.dotted.elim [] (fun ip => ip.groups.map (Nat.toDigits 16))).length =
        (tail.map Group.value ++ dottedGroups t.dotted).length := by
      rw [← hlast tail, List.length_map]
    simp only [hlast tail, hlength, List.length_map, List.map_map]
    rfl

/-- `ipv6Groups` gives the groups of the address. -/
theorem ipv6Groups_text : ipv6Groups t.text = some (t.groups.map fun n : Nat => some (n : Int)) := by
  have hgroups := isGroup_plain (t := t.lower)
  have hcount := t.lower.count'
  unfold ipv6Groups
  rw [lowered_text, undot_body, ← groups_lower, values_plain]
  generalize t.lower.plain = plain at hgroups hcount
  obtain ⟨head, tail⟩ := plain
  simp only at hgroups hcount ⊢
  cases tail with
  | none =>
    have hnil : ∀ part ∈ ([] : List (List Char)), IsGroup part := by simp
    obtain ⟨h, -⟩ := splitGroups_joined hgroups.1 hnil hcount
    rw [h]
    simp only [Option.map_some, List.map_map]
    congr 1
    exact List.map_congr_left fun part hpart => parseHex_group (hgroups.1 part hpart)
  | some tail =>
    rw [Option.getD_some] at hgroups hcount
    obtain ⟨-, h⟩ := splitGroups_joined hgroups.1 hgroups.2 hcount
    rw [h]
    have hvalues : ∀ parts : List (List Char), (∀ part ∈ parts, IsGroup part) →
        parts.map (fun g => parseHex (if g = [] then ['0'] else g)) = parts.map fun part => some (ofDigits 16 part : Int) :=
      fun parts hparts => List.map_congr_left fun part hpart => parseHex_group (hparts part hpart)
    simp only [Option.map_some, List.map_append, List.map_map, List.map_replicate, hvalues head hgroups.1, hvalues tail hgroups.2]
    rfl

end MailExpert.HostValidation
