import ConstDb.Proofs.Dump
import ConstDb.Proofs.LookupInStep

/-!
# Listings in step

Two databases of one size whose reads are in step list their records in step (`nextRecord_inStep`), and
the walk over the records of an area comes to its end (`restRecords_over`).
-/

namespace ConstDb

open Effect

/-! ## Records in step -/

section listing
variable {σ τ : Type} {db : Database σ} {other : Database τ} {rel : σ → τ → Prop}
variable {broken : DbError → σ → Prop} {s : σ} {t : τ}
variable (reads : ∀ {s t}, rel s t → ∀ position length,
  InUnison rel broken (db.readAt position length) (other.readAt position length) s t)
include reads

theorem recordArea_inStep (size : db.size = other.size) (related : rel s t) :
    InUnison rel broken db.recordArea other.recordArea s t := by
  apply (readTable_inStep reads related _).bind
  intro table s _ t alike
  obtain ⟨rfl, related⟩ := alike
  dsimp only
  rw [← size]
  by_cases outside : table.offset.toNat < headerSize ∨ db.size < table.offset.toNat
  · simp only [if_pos outside]
    exact inStep_throw related
  · simp only [if_neg outside]
    exact inStep_pure ⟨rfl, related⟩

theorem recordAt_inStep (position stop : Nat) (related : rel s t) :
    InUnison rel broken (db.recordAt position stop) (other.recordAt position stop) s t := by
  apply (reads related _ _).bind
  intro pair s _ t alike
  obtain ⟨rfl, related⟩ := alike
  dsimp only
  by_cases past : stop < position + recordHeaderSize + (Pair.decode pair).1.toNat +
      (Pair.decode pair).2.toNat
  · simp only [if_pos past]
    exact inStep_throw related
  · simp only [if_neg past]
    apply (reads related _ _).bind
    intro key s _ t alike
    obtain ⟨rfl, related⟩ := alike
    apply (reads related _ _).bind
    intro data s _ t alike
    obtain ⟨rfl, related⟩ := alike
    exact inStep_pure ⟨rfl, related⟩

theorem nextRecord_inStep (state : Records × σ) (state' : Records × τ)
    (related : OnSecond rel state state') :
    Walk.InStep db.nextRecord other.nextRecord (OnSecond rel) (fun e state => broken e state.2)
      state state' := by
  obtain ⟨⟨position, stop⟩, s⟩ := state
  obtain ⟨_, t⟩ := state'
  obtain ⟨rfl, related⟩ := related
  by_cases ended : stop ≤ position
  · left
    simp only [Database.nextRecord, if_pos ended]
    exact ⟨trivial, rfl, related⟩
  · have lt := Nat.lt_of_not_le ended
    rcases (recordAt_inStep reads position stop related).cases with
      ⟨⟨record, next⟩, s', _, t', eq, eq', rfl, related⟩ | ⟨e, s', t', eq, eq', related⟩ |
      ⟨e, s', eq, alone⟩
    · left
      simp only [Database.nextRecord, if_neg ended, eq, eq']
      exact ⟨trivial, rfl, related⟩
    · left
      simp only [Database.nextRecord, if_neg ended, eq, eq']
      exact ⟨trivial, rfl, related⟩
    · refine .inr ⟨e, (⟨stop, stop⟩, s'), ?_, alone, nextRecord_over db stop s'⟩
      simp only [Database.nextRecord, if_neg ended, eq]

end listing

/-- Databases of one size that answer all reads alike list the same records. -/
theorem records_inUnison {σ τ : Type} {db : Database σ} {other : Database τ} {rel : σ → τ → Prop}
    (reads : ∀ {s t}, rel s t → ∀ position length,
      InUnison rel (fun _ _ => False) (db.readAt position length) (other.readAt position length) s t)
    (size : db.size = other.size) {s : σ} {t : τ} (related : rel s t) :
    InUnison rel (fun _ _ => False) db.records other.records s t := by
  rcases (recordArea_inStep reads size related).cases with
    ⟨area, s', _, t', eq, eq', rfl, related⟩ | ⟨e, s', t', eq, eq', related⟩ | ⟨e, s', eq, never⟩
  · have start : OnSecond rel (area, s') (area, t') := ⟨rfl, related⟩
    rcases Walk.items_inStep (nextRecord_inStep reads) area.remaining start with
      ⟨same, -, related⟩ | ⟨shown, e, never, -⟩
    · have here : db.records s = .ok (db.restRecords area s').1 (db.restRecords area s').2.2 := by
        simp only [Database.records, eq]
      have there : other.records t =
          .ok (other.restRecords area t').1 (other.restRecords area t').2.2 := by
        simp only [Database.records, eq']
      exact inStep_of_ok here there ⟨same, related⟩
    · exact never.elim
  · have here : db.records s = .error e s' := by simp only [Database.records, eq]
    have there : other.records t = .error e t' := by simp only [Database.records, eq']
    exact inStep_of_error here there related
  · exact never.elim

/-! ## The end of the records -/

namespace Database

variable {σ : Type}

theorem lt_of_recordAt_ok {db : Database σ} {position stop next : Nat} {record : Record} {s t : σ}
    (read : db.recordAt position stop s = .ok (record, next) t) : position < next := by
  obtain ⟨pair, s', -, read⟩ := bind_eq_ok_iff.1 read
  dsimp only at read
  split at read
  · cases read
  · obtain ⟨key, u, -, read⟩ := bind_eq_ok_iff.1 read
    obtain ⟨data, v, -, read⟩ := bind_eq_ok_iff.1 read
    cases read
    simp only [recordHeaderSize, Pair.size]
    omega

theorem nextRecord_settles (db : Database σ) : Walk.Settles db.nextRecord := by
  intro state u ended
  obtain ⟨⟨position, stop⟩, s⟩ := state
  unfold nextRecord at ended
  dsimp only at ended
  split at ended
  · next past =>
    cases ended
    simp only [Walk.Over, nextRecord, if_pos past]
  · split at ended <;> cases ended

theorem nextRecord_halts (db : Database σ) : Walk.Halts db.nextRecord := by
  intro state e u failed
  obtain ⟨⟨position, stop⟩, s⟩ := state
  unfold nextRecord at failed
  dsimp only at failed
  split at failed
  · cases failed
  · split at failed
    · cases failed
    · cases failed
      exact nextRecord_over db stop _

theorem nextRecord_lessens {db : Database σ} {state next : Records × σ} {record : Record}
    (found : db.nextRecord state = (some (.ok record), next)) :
    next.1.stop - next.1.position < state.1.stop - state.1.position := by
  obtain ⟨⟨position, stop⟩, s⟩ := state
  unfold nextRecord at found
  dsimp only at found
  split at found
  · cases found
  · split at found
    · next read =>
      cases found
      have := lt_of_recordAt_ok read
      dsimp only
      omega
    · cases found

theorem restRecords_over (db : Database σ) (records : Records) (s : σ) :
    Walk.Over db.nextRecord (db.restRecords records s).2 := by
  apply Walk.over_items_of_lessens (fun state => state.1.stop - state.1.position)
    (nextRecord_settles db) (nextRecord_halts db)
  · exact fun _ _ _ found => nextRecord_lessens found
  · exact Nat.lt_succ_self _

end Database

end ConstDb
