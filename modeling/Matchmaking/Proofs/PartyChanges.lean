import Matchmaking.Parties
import Matchmaking.Proofs.Collections
import Matchmaking.Proofs.Lookups

/-!
# How parties change

A party starts with its leader, gains players and loses them, and stays led by one of
its members and within its bounds (`Party.Sound`).  A party that its last player
leaves is deleted.
-/

namespace Matchmaking

namespace Party

/-- A party with room for its members, one of whom leads it. -/
structure Sound (P : Party) : Prop where
  /-- Somebody is in it. -/
  inhabited : 0 < P.size
  /-- There is room for everybody. -/
  fits : P.size ≤ P.maxMembers.toNat
  /-- The leader is a member with the leader's token. -/
  led : P.members[P.leader]? = some P.leaderToken

theorem create_spec {id leader token : String} {min max : UInt32} {P : Party}
    (h : Party.create id leader token min max = .ok P) :
    P.Sound ∧ P.id = id ∧ P.phase = .forming ∧ ∀ x, x ∈ P.members ↔ x = leader := by
  unfold Party.create at h
  split at h
  next bounds =>
    injection h with h
    subst h
    have one : ((∅ : TextMap).insert leader token).size = 1 :=
      TextMap.size_insert_new token Std.ExtTreeMap.not_mem_empty
    obtain ⟨positive, ordered⟩ := bounds
    rw [UInt32.lt_iff_toNat_lt] at positive
    rw [UInt32.le_iff_toNat_le] at ordered
    refine ⟨⟨?_, ?_, Std.ExtTreeMap.getElem?_insert_self⟩, rfl, rfl, fun x => ?_⟩
    · exact Nat.lt_of_lt_of_eq Nat.one_pos one.symm
    · show ((∅ : TextMap).insert leader token).size ≤ max.toNat
      rw [one]
      exact Nat.le_trans positive ordered
    · refine TextMap.mem_insert.trans (or_iff_left ?_)
      exact Std.ExtTreeMap.not_mem_empty
  next => contradiction

theorem add?_spec {P P' : Party} {x token : String} (h : P.add? x token = some P') :
    P'.id = P.id ∧ P'.phase = P.phase ∧ x ∉ P.members ∧
      (∀ y, y ∈ P'.members ↔ y = x ∨ y ∈ P.members) ∧ (P.Sound → P'.Sound) := by
  unfold add? at h
  split at h
  next => contradiction
  next room =>
    rw [Bool.or_eq_true, not_or] at room
    obtain ⟨space, new⟩ := room
    have new : x ∉ P.members := new
    have space : P.size < P.maxMembers.toNat := by
      simpa [isFull] using space
    injection h with h
    subst h
    refine ⟨rfl, rfl, new, fun y => TextMap.mem_insert, fun sound => ⟨?_, ?_, ?_⟩⟩
    · show 0 < (P.members.insert x token).size
      rw [TextMap.size_insert_new token new]
      exact Nat.succ_pos _
    · show (P.members.insert x token).size ≤ P.maxMembers.toNat
      rw [TextMap.size_insert_new token new]
      exact space
    · show (P.members.insert x token)[P.leader]? = some P.leaderToken
      have other : x ≠ P.leader := by
        rintro rfl
        exact new (Std.ExtTreeMap.mem_iff_isSome_getElem?.2 (by rw [sound.led]; rfl))
      simpa [other] using sound.led

/-- What a party becomes when a player leaves keeps its id. -/
theorem remove?_id (P : Party) (x : String) : ((P.remove? x).getD P).id = P.id := by
  unfold remove?
  split
  · dsimp only
    split
    · split <;> rfl
    · rfl
  · rfl

theorem remove?_phase (P : Party) (x : String) : ((P.remove? x).getD P).phase = P.phase := by
  unfold remove?
  split
  · dsimp only
    split
    · split <;> rfl
    · rfl
  · rfl

theorem remove?_spec {P : Party} {x : String} (sound : P.Sound) (member : x ∈ P.members) :
    ∃ P', P.remove? x = some P' ∧ P'.id = P.id ∧ P'.phase = P.phase ∧
      (∀ y, y ∈ P'.members ↔ y ≠ x ∧ y ∈ P.members) ∧ (P'.size ≠ 0 → P'.Sound) := by
  have others (y : String) : y ∈ P.members.erase x ↔ y ≠ x ∧ y ∈ P.members := TextMap.mem_erase
  have smaller : (P.members.erase x).size ≤ P.maxMembers.toNat :=
    Nat.le_trans Std.ExtTreeMap.size_erase_le sound.fits
  have has : P.hasMember x = true := member
  unfold remove?
  rw [if_pos has]
  dsimp only
  split
  next leads =>
    cases first : (P.members.erase x).toList.head? with
    | none =>
      refine ⟨_, rfl, rfl, rfl, others, fun left => ?_⟩
      have nobody : (P.members.erase x).toList = [] := List.head?_eq_none_iff.1 first
      exact absurd (by rw [size, ← Std.ExtTreeMap.length_toList, nobody]; rfl) left
    | some next =>
      obtain ⟨next, token⟩ := next
      refine ⟨_, rfl, rfl, rfl, others, fun left => ⟨Nat.pos_of_ne_zero left, smaller, ?_⟩⟩
      exact Std.ExtTreeMap.mem_toList_iff_getElem?_eq_some.1 (List.mem_of_head? first)
  next follows =>
    refine ⟨_, rfl, rfl, rfl, others, fun left => ⟨Nat.pos_of_ne_zero left, smaller, ?_⟩⟩
    show (P.members.erase x)[P.leader]? = some P.leaderToken
    simpa [Ne.symm follows] using sound.led

end Party

/-- Only a forming party accepts a player. -/
theorem Parties.accept_spec {P P' : Party} {player token : String}
    (h : accept P player token = .ok P') : P.phase = .forming ∧ P.add? player token = some P' := by
  unfold accept at h
  split at h
  · contradiction
  next forming =>
    split at h
    · contradiction
    · split at h
      next added =>
        injection h with h
        exact ⟨not_not.1 forming, h ▸ added⟩
      · contradiction

namespace Parties

/-- What is stored of a party that a player has left. -/
def left (party : Party) (player : String) : Option Party :=
  let rest := (party.remove? player).getD party
  if rest.size = 0 then none else some rest

variable {e : Entry Party} {p : String} {ks : Keyspace}

theorem left_phase {P P' : Party} {player : String} (h : left P player = some P') :
    P'.phase = P.phase := by
  unfold left at h
  dsimp only at h
  split at h
  next => contradiction
  next =>
    injection h with h
    rw [← h]
    exact P.remove?_phase player

theorem record?_departure (loaded : e.Loaded p) (player : String) (y : String) :
    ((departure e player).effect ks).record? Party y =
      if y = p then left e.record player else ks.record? Party y := by
  have own : ((e.record.remove? player).getD e.record).id = p :=
    (e.record.remove?_id player).trans loaded.id
  unfold departure left
  dsimp only
  rw [← own]
  split
  next nobody => exact Keyspace.record?_erase ks _ y
  next somebody =>
    exact (Entry.draft_writes (e := ⟨_, e.previous⟩) (Party.readable _)).record? ks y

theorem keys_departure (e : Entry Party) (player : String) : (departure e player).keys =
    [.entry Party ((e.record.remove? player).getD e.record).id] := by
  unfold departure
  dsimp only
  split <;> rfl

theorem legible_departure (e : Entry Party) (player : String) (h : ks.Legible Party) :
    ((departure e player).effect ks).Legible Party := by
  unfold departure
  dsimp only
  split
  next nobody => exact h.erase _
  next somebody =>
    exact (Entry.draft_writes (e := ⟨_, e.previous⟩) (Party.readable _)).legible h

theorem spares_departure (e : Entry Party) (player : String) {space : String}
    (apart : Key.Apart (Record.kind Party) space := by decide) :
    (departure e player).Spares space := by
  intro id
  rw [keys_departure, List.mem_singleton]
  exact Ne.symm (Key.compose_ne apart _ id)

/-- A departure goes through only if the party is still as it was read. -/
theorem stored_of_departure (loaded : e.Loaded p) {player : String}
    (h : ∀ r ∈ (departure e player).requirements, r.Holds ks) :
    ks.record? Party p = some e.record := by
  have key : Key.entry Party ((e.record.remove? player).getD e.record).id = .entry Party p :=
    congrArg (Key.entry Party) ((e.record.remove?_id player).trans loaded.id)
  unfold departure at h
  dsimp only at h
  split at h
  · exact loaded.unchanged key rfl (Operation.holds_delete h _ List.mem_cons_self)
  · exact loaded.unchanged key rfl (Operation.holds_update h _ List.mem_cons_self)

end Parties

end Matchmaking
