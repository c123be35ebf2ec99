/-
  File:      MuseChain/Safety/Overplayed.lean
  Subject:   A content with more plays than its counter holds.

  * `playedStart`: one content and one platform.
  * `overplayed`: 49711 accounts report 86400 plays of a second each, and the counter of the content
    is past its end.
-/
import MuseChain.Safety.ContentEdits
import MuseChain.Safety.Crowds
import MuseChain.Safety.Votes

namespace MuseChain

attribute [local instance] sampleFc

/-- The init miner has 100 MUSE. -/
def playedGenesis : GenesisState := { sampleGenesis with initSupply := 100000000 }

def playedFirst : Database chainSchema := (Node.genesis playedGenesis).db

/-- A platform, and a content on it. -/
def playedStart : Database chainSchema :=
  evaluated (.content (sampleContentOp [⟨initMinerName, 10000⟩] [⟨initMinerName, 100⟩]))
    (evaluated (.streamingPlatformUpdate initMinerName "a" (Asset.muse 10000000)) playedFirst)

/-- The init miner played the content for a minute. -/
def playedOnce : Database chainSchema :=
  evaluated (.streamingPlatformReport (playing initMinerName 60)) playedStart

/-- It proposes another minute and one that is too long for the day. -/
def playedTooLong : List Operation :=
  [.streamingPlatformReport (playing initMinerName 60),
    .streamingPlatformReport (playing initMinerName 86400)]

def playedFailing : Database chainSchema :=
  approved [initMinerName] (proposed playedTooLong playedOnce)

/-- What the runs come to. -/
theorem played_runs :
    ((initGenesis playedGenesis).run emptyDatabase).isOk = true ∧
    ((Operation.streamingPlatformUpdate initMinerName "a" (Asset.muse 10000000)).validate = .ok () ∧
      ((evaluate 0 (fun _ => pure ()) (.streamingPlatformUpdate initMinerName "a"
        (Asset.muse 10000000)) : Act 0 Unit).run playedFirst).isOk = true) ∧
    ((Operation.content (sampleContentOp [⟨initMinerName, 10000⟩] [⟨initMinerName, 100⟩])).validate =
        .ok () ∧
      ((evaluate 0 (fun _ => pure ()) (.content (sampleContentOp [⟨initMinerName, 10000⟩]
        [⟨initMinerName, 100⟩])) : Act 0 Unit).run (evaluated (.streamingPlatformUpdate initMinerName
          "a" (Asset.muse 10000000)) playedFirst)).isOk = true) ∧
    (Audience.Tests 49711 genesisTime 0 playedStart.store ∧
      (playedStart.store.rows Kind.account).all
        (fun r : Nat × Account => decide (r.2.name.toList.head? ≠ some 'z')) = true ∧
      (playedStart.store.rows Kind.content).all
        (fun r : Nat × Content => r.2.timesPlayed24 = 0) = true ∧
      plays playedStart.store 0 = 0) ∧
    ((Operation.streamingPlatformReport (playing initMinerName 60)).validate = .ok () ∧
      ((evaluate 0 (fun _ => pure ()) (.streamingPlatformReport (playing initMinerName 60)) :
        Act 0 Unit).run playedStart).isOk = true) ∧
    (Operation.proposalCreate playedTooLong (genesisTime + 3600) none).validate = .ok () ∧
    unexecutable playedTooLong [initMinerName] playedOnce = true ∧
    playedFailing.broken = false ∧
    (playedFailing.store.get Kind.account 3).map (fun a : Account => a.totalListeningTime) =
      some 60 := by
  decide +kernel

theorem attained_playedStart {ok : Store chainSchema → Operation → Prop}
    (hok : ∀ s op, (∀ o, op ≠ .streamingPlatformReport o) → ok s op) :
    Attained ok Unspoilt playedGenesis playedStart := by
  obtain ⟨hgenesis, ⟨hplatform, hplatformRun⟩, ⟨hcontent, hcontentRun⟩, _⟩ := played_runs
  have hfirst : Attained ok Unspoilt playedGenesis playedFirst := .genesis hgenesis
  have hsecond := hfirst.evaluated _ hplatform rfl (hok _ _ (by simp)) hplatformRun
  exact hsecond.evaluated _ hcontent rfl (hok _ _ (by simp)) hcontentRun

theorem reached_playedStart : Reached (fun _ _ => True) playedGenesis playedStart.store :=
  (attained_playedStart fun _ _ _ => trivial).reached

theorem playedStart_audience : Audience 49711 genesisTime playedStart.store :=
  .of_tests reached_playedStart.fresh (by decide) played_runs.2.2.2.1.1

/-- The minute is in the books, and a second report that fails with its proposal is not. -/
theorem listening_audited_play :
    (playedFailing.store.get Kind.account 3).map (fun a : Account => a.totalListeningTime) =
        some 60 ∧
      Attained Countable Unspoilt playedGenesis playedFailing ∧ Audited playedFailing.store := by
  obtain ⟨_, _, _, ⟨_, _, hplays, _⟩, ⟨hvalid, hrun⟩, hpropose, hfails, hwhole, hminute⟩ :=
    played_runs
  have hstart : Attained Countable Unspoilt playedGenesis playedStart :=
    attained_playedStart fun _ op hop o he => absurd he (hop o)
  have honce : Attained Countable Unspoilt playedGenesis playedOnce := by
    refine hstart.evaluated _ hvalid rfl (fun o _ i c hc _ => ?_) hrun
    have hzero := List.all_eq_true.mp hplays (i, c) (FMap.mem_rows.mpr hc)
    rw [show c.timesPlayed24 = 0 from of_decide_eq_true hzero]
    decide
  have hfailing : Attained Countable Unspoilt playedGenesis playedFailing :=
    honce.attempted hpropose (fun o he => by cases he) hfails fun _ => unspoilt_of_whole hwhole
  exact ⟨hminute, hfailing, listening_audited hfailing (refl playedFailing.store)⟩

/-- **A content with more than 2 ^ 32 plays**: its counter does not agree with the reports. -/
theorem overplayed : ∃ (s : Store chainSchema) (c : Content),
    Reached (fun _ _ => True) playedGenesis s ∧ s.get Kind.content 0 = some c ∧
      (c.timesPlayed24 : Int) ≠ reported s (playFor 0) ∧ ¬Audited s := by
  obtain ⟨_, _, _, ⟨_, hnames, _, hnone⟩, _⟩ := played_runs
  have hunused := unused_crowdName hnames 6
  have hcrowd : ∃ t, Chained (fun _ _ => True) playedStart.store t ∧ Audience 0 genesisTime t ∧
      Grown genesisTime 1 (86400 * 1) (49711 * 86400) playedStart.store t :=
    Audience.crowd playedStart_audience (fun k (_ : 0 ≤ k) _ => hunused k) (by decide)
      (by decide) (by decide)
  obtain ⟨s, hrun, haudience, hgrown⟩ := hcrowd
  obtain ⟨u, d₀, hg, hstart⟩ := reached_playedStart
  obtain ⟨c, hc⟩ := haudience.content
  have hlow : plays s 0 < 2 ^ 32 := by
    rcases hgrown.played 0 with h | h
    · rw [h, hnone]
      decide
    · exact h
  have hhigh : (2 ^ 32 : Int) < reported s (playFor 0) := by
    have hcount := hgrown.reported (playFor 0) 1 fun r hr _ => if_pos hr
    have hnonneg : 0 ≤ reported playedStart.store (playFor 0) :=
      FMap.sum_nonneg (playFor_nonneg 0)
    omega
  rw [plays_eq hc] at hlow
  have hne : (c.timesPlayed24 : Int) ≠ reported s (playFor 0) := by omega
  exact ⟨s, c, ⟨u, d₀, hg, hstart.trans hrun⟩, hc, hne, fun h => hne (h.played 0 c hc)⟩

end MuseChain
