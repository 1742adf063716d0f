import Mathlib.Data.List.Induction
import Matchmaking.Proofs.PartyChanges

/-!
# Who leads a party

Players are added to a party and removed from it, and the lead is handed over, in any
order (`Party.Change`).  A party that is led stays led as long as somebody is in it, and
its members always fit into it.

The last member who leaves keeps the lead, because there is nobody to take it over, and
adding a player does not give the lead to anybody.  So a party that everybody has left is
*forsaken* until a change appoints one of its members: until the lead is handed over, or
the former leader has come back and leaves others behind (`Party.Appoints`).  Up to then
its members are led by somebody who may be none of them.  Apart from that, every party is
led by a member under the member's token (`led_unless_forsaken`).
-/

namespace Matchmaking

namespace Party

/-! ## Changes -/

/-- What is done to the members of a party. -/
inductive Change where
  /-- A player is added. -/
  | add (player token : String)
  /-- A player is removed. -/
  | remove (player : String)
  /-- The lead is handed over to a player. -/
  | handOver (player : String)

/-- The party after a change; one that is refused changes nothing. -/
def change (p : Party) : Change → Party
  | .add player token => (p.add? player token).getD p
  | .remove player => (p.remove? player).getD p
  | .handOver player => (p.handOver? player).getD p

/-- The party after changes in order. -/
def changeAll (p : Party) (changes : List Change) : Party := changes.foldl change p

/-- The leader is a member, and the leader's token is the member's. -/
def Led (p : Party) : Prop := p.members[p.leader]? = some p.leaderToken

/-- A change that makes a member the leader.  Removing the leader appoints somebody if
others are left. -/
def Appoints (p : Party) : Change → Prop
  | .add _ _ => False
  | .remove player => player = p.leader ∧ player ∈ p.members ∧ ∃ next ∈ p.members, next ≠ player
  | .handOver player => player ∈ p.members

theorem size_eq_zero_iff {p : Party} : p.size = 0 ↔ ∀ x, x ∉ p.members := by
  rw [size, ← Std.ExtTreeMap.eq_empty_iff_size_eq_zero, Std.ExtTreeMap.eq_empty_iff_forall_not_mem]

/-- What a change makes of a party. -/
inductive Becomes (p : Party) : Change → Party → Prop where
  /-- The change is refused. -/
  | refused {c : Change} (nobody : ¬ p.Appoints c) : Becomes p c p
  /-- There is one more member. -/
  | grown {player token : String} (space : p.size < p.maxMembers.toNat)
      (new : player ∉ p.members) :
      Becomes p (.add player token) { p with members := p.members.insert player token }
  /-- A member left, and the lead stayed where it was. -/
  | shrunk {player : String} (nobody : ¬ p.Appoints (.remove player)) :
      Becomes p (.remove player) { p with members := p.members.erase player }
  /-- One of the members leads. -/
  | appointed {c : Change} {members : TextMap} {leader token : String} (appoints : p.Appoints c)
      (fits : members.size ≤ p.size) (found : members[leader]? = some token) :
      Becomes p c { p with members := members, leader := leader, leaderToken := token }

variable {p : Party} {c : Change}

theorem becomes_add (p : Party) (player token : String) :
    p.Becomes (.add player token) (p.change (.add player token)) := by
  rw [change, add?]
  split
  next => exact .refused fun appoints => appoints.elim
  next room =>
    rw [Bool.or_eq_true, not_or] at room
    obtain ⟨space, new⟩ := room
    exact .grown (by simpa [isFull] using space) new

theorem becomes_remove (p : Party) (player : String) :
    p.Becomes (.remove player) (p.change (.remove player)) := by
  rw [change, remove?]
  split
  next member =>
    dsimp only
    split
    next leads =>
      have others (x : String) : x ∈ p.members.erase player ↔ x ≠ player ∧ x ∈ p.members :=
        TextMap.mem_erase
      have listed (x : String) :
          x ∈ p.members.erase player ↔ x ∈ (p.members.erase player).toList.map Prod.fst := by
        rw [Std.ExtTreeMap.map_fst_toList_eq_keys, Std.ExtTreeMap.mem_keys]
      cases first : (p.members.erase player).toList.head? with
      | none =>
        refine .shrunk fun ⟨_, _, next, among, other⟩ => ?_
        have left := (listed next).1 ((others next).2 ⟨other, among⟩)
        rw [List.head?_eq_none_iff.1 first] at left
        exact List.not_mem_nil left
      | some taker =>
        have mem := List.mem_of_head? first
        obtain ⟨other, among⟩ := (others taker.1).1 ((listed taker.1).2 (List.mem_map_of_mem mem))
        exact .appointed ⟨leads.symm, member, taker.1, among, other⟩ Std.ExtTreeMap.size_erase_le
          (Std.ExtTreeMap.mem_toList_iff_getElem?_eq_some.1 mem)
    next follows => exact .shrunk fun appoints => follows appoints.1.symm
  next stranger => exact .refused fun appoints => stranger appoints.2.1

theorem becomes_handOver (p : Party) (player : String) :
    p.Becomes (.handOver player) (p.change (.handOver player)) := by
  rw [change, handOver?]
  cases found : p.members[player]? with
  | none =>
    refine .refused fun (member : player ∈ p.members) => ?_
    rw [Std.ExtTreeMap.mem_iff_isSome_getElem?, found] at member
    contradiction
  | some token =>
    have member : player ∈ p.members :=
      Std.ExtTreeMap.mem_iff_isSome_getElem?.2 (Option.isSome_of_eq_some found)
    exact .appointed member (Nat.le_refl _) found

theorem becomes (p : Party) (c : Change) : p.Becomes c (p.change c) := by
  cases c with
  | add player token => exact p.becomes_add player token
  | remove player => exact p.becomes_remove player
  | handOver player => exact p.becomes_handOver player

/-! ## Single changes -/

namespace Becomes

variable {q : Party} (h : p.Becomes c q)

include h

/-- The bounds of a party stay. -/
theorem maxMembers : q.maxMembers = p.maxMembers := by
  cases h <;> rfl

/-- The members fit into the party. -/
theorem size_le (fits : p.size ≤ p.maxMembers.toNat) : q.size ≤ p.maxMembers.toNat := by
  cases h with
  | refused nobody => exact fits
  | @grown player token space new =>
    show (p.members.insert player token).size ≤ _
    rw [TextMap.size_insert_new token new]
    exact space
  | shrunk nobody => exact Nat.le_trans Std.ExtTreeMap.size_erase_le fits
  | appointed appoints fewer found => exact Nat.le_trans fewer fits

/-- An appointed leader is a member with the member's token. -/
theorem led_of_appoints (appoints : p.Appoints c) : q.Led := by
  cases h with
  | refused nobody => exact absurd appoints nobody
  | grown space new => exact appoints.elim
  | shrunk nobody => exact absurd appoints nobody
  | appointed appoints fits found => exact found

/-- A change that appoints nobody leaves the lead as it was. -/
theorem lead_stays (nobody : ¬ p.Appoints c) :
    q.leader = p.leader ∧ q.leaderToken = p.leaderToken := by
  cases h with
  | refused nobody => exact ⟨rfl, rfl⟩
  | grown space new => exact ⟨rfl, rfl⟩
  | shrunk nobody => exact ⟨rfl, rfl⟩
  | appointed appoints fits found => exact absurd appoints nobody

/-- A party that is led stays led unless everybody has left it. -/
theorem led (led : p.Led) : q.Led ∨ q.size = 0 := by
  have member : p.leader ∈ p.members :=
    Std.ExtTreeMap.mem_iff_isSome_getElem?.2 (Option.isSome_of_eq_some led)
  cases h with
  | refused nobody => exact .inl led
  | @grown player token space new =>
    have other : player ≠ p.leader := fun same => new (same ▸ member)
    refine .inl ?_
    simpa [Led, other] using led
  | @shrunk player nobody =>
    by_cases leads : player = p.leader
    · -- Nobody is left, or somebody had been appointed.
      refine .inr (size_eq_zero_iff.2 fun x left => ?_)
      obtain ⟨other, among⟩ := TextMap.mem_erase.1 left
      exact nobody ⟨leads, leads ▸ member, x, among, other⟩
    · refine .inl ?_
      simpa [Led, leads] using led
  | appointed appoints fits found => exact .inl found

end Becomes

/-! ## Runs of changes -/

theorem changeAll_append (p : Party) (before after : List Change) :
    p.changeAll (before ++ after) = (p.changeAll before).changeAll after :=
  List.foldl_append

theorem changeAll_concat (p : Party) (changes : List Change) (c : Change) :
    p.changeAll (changes ++ [c]) = (p.changeAll changes).change c :=
  p.changeAll_append changes [c]

/-- None of the changes appoints anybody. -/
def Unappointed (p : Party) : List Change → Prop
  | [] => True
  | c :: changes => ¬ p.Appoints c ∧ (p.change c).Unappointed changes

theorem Unappointed.concat {changes : List Change} (h : p.Unappointed changes)
    (nobody : ¬ (p.changeAll changes).Appoints c) : p.Unappointed (changes ++ [c]) := by
  induction changes generalizing p with
  | nil => exact ⟨nobody, trivial⟩
  | cons first changes ih => exact ⟨h.1, ih h.2 nobody⟩

/-- The lead stays where it is until somebody is appointed. -/
theorem Unappointed.lead_stays {changes : List Change} (h : p.Unappointed changes) :
    (p.changeAll changes).leader = p.leader ∧
      (p.changeAll changes).leaderToken = p.leaderToken := by
  induction changes generalizing p with
  | nil => exact ⟨rfl, rfl⟩
  | cons first changes ih =>
    obtain ⟨leader, token⟩ := (p.becomes first).lead_stays h.1
    obtain ⟨leader', token'⟩ := ih h.2
    exact ⟨leader'.trans leader, token'.trans token⟩

/-- Everybody has left the party at some point, and nobody was appointed since. -/
def Forsaken (p : Party) (changes : List Change) : Prop :=
  ∃ before after, changes = before ++ after ∧ (p.changeAll before).size = 0 ∧
    (p.changeAll before).Unappointed after

theorem forsaken_of_empty {changes : List Change} (empty : (p.changeAll changes).size = 0) :
    p.Forsaken changes :=
  ⟨changes, [], (List.append_nil changes).symm, empty, trivial⟩

/-- A party that is led is led or forsaken after any changes. -/
theorem Led.changeAll (led : p.Led) (changes : List Change) :
    (p.changeAll changes).Led ∨ p.Forsaken changes := by
  induction changes using List.reverseRecOn with
  | nil => exact .inl led
  | append_singleton changes c ih =>
    have turn := (p.changeAll changes).becomes c
    rw [← changeAll_concat] at turn
    rcases ih with led | ⟨before, after, rfl, empty, unappointed⟩
    · exact (turn.led led).imp_right forsaken_of_empty
    · by_cases appoints : (p.changeAll (before ++ after)).Appoints c
      · exact .inl (turn.led_of_appoints appoints)
      · rw [changeAll_append] at appoints
        exact .inr ⟨before, after ++ [c], List.append_assoc before after [c], empty,
          unappointed.concat appoints⟩

theorem size_changeAll_le (fits : p.size ≤ p.maxMembers.toNat) (changes : List Change) :
    (p.changeAll changes).size ≤ p.maxMembers.toNat := by
  induction changes generalizing p with
  | nil => exact fits
  | cons c changes ih =>
    have turn := p.becomes c
    have bound : (p.change c).size ≤ (p.change c).maxMembers.toNat := by
      rw [turn.maxMembers]
      exact turn.size_le fits
    rw [← turn.maxMembers]
    exact ih bound

/-- A party of valid bounds never has more members than it has room for.  After any changes one
of its members leads it under the member's token, unless everybody had left the party and nobody
was appointed since.  As long as nobody is appointed the lead stays where it was. -/
theorem led_unless_forsaken (id leader token : String) {min max : UInt32}
    (bounds : 0 < min ∧ min ≤ max) :
    ∃ p, Party.create id leader token min max = .ok p ∧ ∀ changes,
      (p.changeAll changes).size ≤ max.toNat ∧
      ((p.changeAll changes).Led ∨ p.Forsaken changes) ∧
      ∀ before after, changes = before ++ after → (p.changeAll before).Unappointed after →
        (p.changeAll changes).leader = (p.changeAll before).leader ∧
          (p.changeAll changes).leaderToken = (p.changeAll before).leaderToken := by
  have created : Party.create id leader token min max =
      .ok ⟨id, leader, token, min, max, (∅ : TextMap).insert leader token, .forming⟩ :=
    if_pos bounds
  have sound := (create_spec created).1
  refine ⟨_, created, fun changes => ?_⟩
  refine ⟨size_changeAll_le sound.fits changes, Led.changeAll sound.led changes, ?_⟩
  rintro before after rfl unappointed
  rw [changeAll_append]
  exact unappointed.lead_stays

/-- A leader who left last and came back under another token leads under the old one, until the
lead is handed over to the same player. -/
theorem returned_leader_has_old_token :
    (0 < (1 : UInt32) ∧ (1 : UInt32) ≤ 2) ∧
    ∃ p, Party.create "p" "ann" "old" 1 2 = .ok p ∧
      p.Forsaken [.remove "ann", .add "ann" "new"] ∧
      (p.changeAll [.remove "ann", .add "ann" "new"]).leaderToken = "old" ∧
      (p.changeAll [.remove "ann", .add "ann" "new", .handOver "ann"]).Led := by
  have bounds : 0 < (1 : UInt32) ∧ (1 : UInt32) ≤ 2 := by decide
  obtain ⟨p, created, holds⟩ := led_unless_forsaken "p" "ann" "old" bounds
  obtain rfl : _ = p := Except.ok.inj created
  refine ⟨bounds, _, created, ?_, by decide, ?_⟩
  · exact (holds [.remove "ann", .add "ann" "new"]).2.1.resolve_left (by unfold Led; decide)
  · unfold Led
    decide

/-- A player who is added after everybody has left does not lead the party, and the one who leads
it is no member. -/
theorem newcomer_does_not_lead :
    ∃ p, Party.create "p" "ann" "t" 1 2 = .ok p ∧
      let q := p.changeAll [.remove "ann", .add "bob" "u"]
      q.size = 1 ∧ q.leader = "ann" ∧ "ann" ∉ q.members :=
  ⟨_, rfl, by decide, by decide, by decide⟩

end Party

end Matchmaking
