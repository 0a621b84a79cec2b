import MarsNwe.Route.Rip

/-! # The packets of a RIP buffer

A buffer is sent in packets of at most 50 entries. Only the first 50 of the
entries left move down after a packet, so every packet from the third on repeats
the second one.
-/

namespace MarsNwe

/-- The loop ends with no entries left, and no packet has more than 50 of them. -/
theorem sendRipLoop_bounds (entries : List RipEntry) (rentries : Nat) :
    (sendRipLoop entries rentries).rentries = 0 ∧
      ∀ p ∈ (sendRipLoop entries rentries).packets, p.length ≤ 50 := by
  fun_induction sendRipLoop entries rentries with
  | case1 entries rentries hpos n left moved rest ih =>
      refine ⟨ih.1, fun p hp => ?_⟩
      rcases List.mem_cons.mp hp with heq | hrest
      · rw [heq, List.length_take]
        omega
      · exact ih.2 p hrest
  | case2 entries rentries hzero => exact ⟨by simp only; omega, fun p hp => by contradiction⟩

/-- One packet holds all entries. -/
theorem sendRipLoop_of_le {entries : List RipEntry} {rentries : Nat} (h : rentries ≤ 50) :
    (sendRipLoop entries rentries).packets.flatten = entries.take rentries := by
  rw [sendRipLoop]
  split
  next hpos =>
    have hn : min rentries 50 = rentries := by omega
    simp only [hn, Nat.sub_self, Nat.lt_irrefl, if_false, List.flatten_cons]
    rw [sendRipLoop, if_neg (Nat.lt_irrefl 0), List.flatten_nil, List.append_nil]
  next hzero =>
    rw [List.flatten_nil, show rentries = 0 by omega, List.take_zero]

/-- A packet of 50 entries is followed by what the rest of the loop sends. -/
theorem sendRipLoop_of_lt {entries : List RipEntry} {rentries : Nat} (h : 50 < rentries) :
    (sendRipLoop entries rentries).packets.flatten = entries.take 50 ++
      (sendRipLoop ((entries.drop 50).take (min 50 (rentries - 50)) ++
        entries.drop (min 50 (rentries - 50))) (rentries - 50)).packets.flatten := by
  have hn : min rentries 50 = 50 := by omega
  rw [sendRipLoop, if_pos (by omega)]
  simp only [hn, if_pos (show 0 < rentries - 50 by omega), List.flatten_cons]

/-- When the second 50 entries are those at the front, the buffer stays as it is and
every packet repeats them. -/
theorem sendRipLoop_steady {entries : List RipEntry}
    (hfront : (entries.drop 50).take 50 = entries.take 50) (hlength : 50 ≤ entries.length)
    (rentries : Nat) :
    (sendRipLoop entries rentries).packets.flatten.length = rentries ∧
      ∀ i < rentries, (sendRipLoop entries rentries).packets.flatten[i]? = entries[i % 50]? := by
  induction rentries using Nat.strongRecOn with
  | ind rentries ih =>
      by_cases hle : rentries ≤ 50
      · rw [sendRipLoop_of_le hle, List.length_take]
        refine ⟨by omega, fun i hi => ?_⟩
        rw [List.getElem?_take_of_lt hi, Nat.mod_eq_of_lt (by omega)]
      · have hmoved : (entries.drop 50).take (min 50 (rentries - 50)) ++
            entries.drop (min 50 (rentries - 50)) = entries := by
          have hmin := congrArg (List.take (min 50 (rentries - 50))) hfront
          rw [List.take_take, List.take_take, Nat.min_eq_left (Nat.min_le_left _ _)] at hmin
          rw [hmin, List.take_append_drop]
        obtain ⟨hlen, hget⟩ := ih (rentries - 50) (by omega)
        rw [sendRipLoop_of_lt (Nat.lt_of_not_le hle), hmoved, List.length_append, hlen,
          List.length_take]
        refine ⟨by omega, fun i hi => ?_⟩
        by_cases hfirst : i < 50
        · rw [List.getElem?_append_left (by rw [List.length_take]; omega),
            List.getElem?_take_of_lt hfirst, Nat.mod_eq_of_lt hfirst]
        · rw [List.getElem?_append_right (by rw [List.length_take]; omega), List.length_take,
            Nat.min_eq_left hlength, hget (i - 50) (by omega)]
          congr 1
          omega

/-- What is sent: the first 100 entries as they are, the others as those from the
51st on over and over. -/
theorem getElem?_sendRipLoop {entries : List RipEntry} {rentries : Nat}
    (h : rentries ≤ entries.length) :
    (sendRipLoop entries rentries).packets.flatten.length = rentries ∧
      ∀ i < rentries, (sendRipLoop entries rentries).packets.flatten[i]? =
        if i < 100 then entries[i]? else entries[50 + i % 50]? := by
  by_cases hone : rentries ≤ 50
  · rw [sendRipLoop_of_le hone, List.length_take]
    refine ⟨by omega, fun i hi => ?_⟩
    rw [List.getElem?_take_of_lt hi, if_pos (by omega)]
  · have hfirst : (entries.take 50).length = 50 := by
      rw [List.length_take]
      omega
    rw [sendRipLoop_of_lt (Nat.lt_of_not_le hone), List.length_append, hfirst]
    by_cases htwo : rentries ≤ 100
    · have hlast : (entries.drop 50).take (rentries - 50) = ((entries.drop 50).take
          (rentries - 50) ++ entries.drop (rentries - 50)).take (rentries - 50) := by
        rw [List.take_append_of_le_length (by rw [List.length_take, List.length_drop]; omega),
          List.take_take, Nat.min_self]
      rw [Nat.min_eq_right (by omega), sendRipLoop_of_le (by omega), ← hlast, List.length_take,
        List.length_drop]
      refine ⟨by omega, fun i hi => ?_⟩
      rw [if_pos (by omega)]
      by_cases hi50 : i < 50
      · rw [List.getElem?_append_left (by omega), List.getElem?_take_of_lt hi50]
      · rw [List.getElem?_append_right (by omega), hfirst, List.getElem?_take_of_lt (by omega),
          List.getElem?_drop, Nat.add_sub_cancel' (by omega)]
    · rw [Nat.min_eq_left (by omega)]
      have hsecond : ((entries.drop 50).take 50).length = 50 := by
        rw [List.length_take, List.length_drop]
        omega
      have hfront : (((entries.drop 50).take 50 ++ entries.drop 50).drop 50).take 50 =
          ((entries.drop 50).take 50 ++ entries.drop 50).take 50 := by
        rw [List.drop_left' hsecond, List.take_left' hsecond]
      obtain ⟨hlen, hget⟩ := sendRipLoop_steady hfront
        (by rw [List.length_append, hsecond]; omega) (rentries - 50)
      rw [hlen]
      refine ⟨by omega, fun i hi => ?_⟩
      by_cases hi50 : i < 50
      · rw [if_pos (by omega), List.getElem?_append_left (by omega),
          List.getElem?_take_of_lt hi50]
      · rw [List.getElem?_append_right (by omega), hfirst, hget (i - 50) (by omega),
          List.getElem?_append_left (by rw [hsecond]; omega),
          List.getElem?_take_of_lt (by omega), List.getElem?_drop]
        split
        · congr 1
          omega
        · congr 2
          omega

/-- Entries that repeat after 50 from the 101st on are the ones from the 51st on. -/
theorem getElem?_of_repeats {entries : List RipEntry} {n : Nat}
    (h : ∀ i, 100 ≤ i → i < n → entries[i]? = entries[i - 50]?) {i : Nat} (hmin : 50 ≤ i)
    (hi : i < n) : entries[50 + i % 50]? = entries[i]? := by
  induction i using Nat.strongRecOn with
  | ind i ih =>
      by_cases hsmall : i < 100
      · congr 1
        omega
      · rw [h i (by omega) hi, ← ih (i - 50) (by omega) (by omega) (by omega)]
        congr 2
        omega

theorem entries_sendRipBuff (b : RipBuff) (fromAddr : Option IpxAddr) :
    (sendRipBuff b fromAddr).1.flatMap RipPacket.entries =
      (sendRipLoop b.entries b.rentries).packets.flatten := by
  unfold sendRipBuff
  rw [List.flatMap_map]
  exact List.flatMap_id'

/-- A buffer is sent as a whole, in order and once just when each entry from the
101st on is the one 50 places before it. -/
theorem sendRipBuff_complete_iff (b : RipBuff) (fromAddr : Option IpxAddr) :
    ((sendRipLoop b.entries b.rentries).rentries = 0 ∧
      (∀ p ∈ (sendRipBuff b fromAddr).1, p.entries.length ≤ 50) ∧
      (sendRipBuff b fromAddr).1.flatMap RipPacket.entries = b.entries.take b.rentries) ↔
    ∀ i, 100 ≤ i → i < b.rentries → b.entries[i]? = b.entries[i - 50]? := by
  obtain ⟨hend, hsize⟩ := sendRipLoop_bounds b.entries b.rentries
  obtain ⟨hlength, hget⟩ := getElem?_sendRipLoop b.rentries_le
  rw [entries_sendRipBuff]
  constructor
  · intro ⟨_, _, hall⟩ i hmin hi
    have hat : ∀ j, 50 ≤ j → j < b.rentries → b.entries[j]? = b.entries[50 + j % 50]? := by
      intro j hj hlt
      have hj' := hget j hlt
      rw [hall, List.getElem?_take_of_lt hlt] at hj'
      split at hj'
      · congr 1
        omega
      · exact hj'
    rw [hat i (by omega) hi, hat (i - 50) (by omega) (by omega)]
    congr 2
    omega
  · intro hrepeat
    refine ⟨hend, fun p hp => ?_, ?_⟩
    · obtain ⟨entries, hentries, rfl⟩ := List.mem_map.mp hp
      exact hsize entries hentries
    · apply List.ext_getElem?
      intro i
      by_cases hi : i < b.rentries
      · rw [hget i hi, List.getElem?_take_of_lt hi]
        split
        · rfl
        · exact getElem?_of_repeats hrepeat (by omega) hi
      · rw [List.getElem?_eq_none (by omega), List.getElem?_eq_none (by
          rw [List.length_take]
          omega)]

/-- The buffer for a broadcast to the net 204 of a server with routes to the nets 1
to 100, as `build_rip_buff` collects it. -/
def broadcastBuff : RipBuff :=
  buildRipBuff ⟨205, [⟨[], 0, 1, 204, true⟩]⟩
    ((List.range 100).map fun i => ⟨UInt32.ofNat (i + 1), 1, 2, 206, .zero 6⟩)
    (initRipBuff .empty 204 0) 0xffffffff

/-- Of 101 entries the last is not sent. -/
theorem sendRipBuff_incomplete :
    ¬∀ (b : RipBuff) (fromAddr : Option IpxAddr),
      (sendRipLoop b.entries b.rentries).rentries = 0 ∧
      (∀ p ∈ (sendRipBuff b fromAddr).1, p.entries.length ≤ 50) ∧
      (sendRipBuff b fromAddr).1.flatMap RipPacket.entries = b.entries.take b.rentries := by
  intro h
  obtain ⟨-, -, hall⟩ := h broadcastBuff none
  have hsent := (getElem?_sendRipLoop broadcastBuff.rentries_le).2 100 (by decide +kernel)
  rw [← entries_sendRipBuff _ none, hall, if_neg (by decide)] at hsent
  revert hsent
  decide +kernel

end MarsNwe
