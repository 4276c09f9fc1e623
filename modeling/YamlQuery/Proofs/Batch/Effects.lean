import YamlQuery.Proofs.Batch.Points
import YamlQuery.Proofs.Properties.Sets
import YamlQuery.Proofs.Reference.Memory

/-!
# Proofs.Batch.Effects — what changes properties and memory

A statement changes properties and memory in one of three ways (`Machine.Effect`).  A round and the
end of a loop change the set `batch` and one stored value.
-/

namespace YamlQuery

namespace Batch

/-- The names of the properties that tell a round. -/
def roundNames : List String := [roundIndex, roundKey]

theorem roundKey_ne_roundIndex : roundKey ≠ roundIndex := by decide

namespace Machine

variable {m m' : Machine} {v w : Value} {st : Statement}

/-- What a statement makes of properties and memory, with a current value before it. -/
inductive Effect (m : Machine) (v : Value) (m' : Machine) : Statement → Prop
  | load {name reference : String} {ps : Properties} :
      m.loadProperties (m.expand reference) = .ok ps →
      m'.properties = m.properties.insert name ps → m'.session.memory = m.session.memory →
        Effect m v m' (.properties name reference)
  | set {key value : String} :
      m'.properties = m.properties.set key (m.expand value) →
      m'.session.memory = m.session.memory → Effect m v m' (.setProperty key value)
  | save {target name : String} :
      (Reference.parse (m.expand target)).memoryName? = some name →
      m'.properties = m.properties → m'.session.memory = m.session.memory.put name v →
        Effect m v m' (.saveTo target)
  | none {st : Statement} :
      m'.properties = m.properties → m'.session.memory = m.session.memory → Effect m v m' st

theorem effect_of_execute (h : m.execute v st = (.ok w, m')) : m.Effect v m' st := by
  cases st with
  | properties name reference =>
    rw [execute] at h
    split at h <;> cases h
    next hload => exact .load hload rfl rfl
  | setProperty key value =>
    cases h
    exact .set rfl rfl
  | print text =>
    rw [execute] at h
    split at h <;> cases h
    exact .none rfl rfl
  | saveTo target =>
    rw [execute] at h
    split at h <;> cases h
    next hsave =>
      obtain hsame | ⟨name, hname, hput⟩ := Reference.memory_of_save hsave
      · exact .none rfl hsame
      · exact .save hname rfl hput
  | useAsInput source =>
    rw [execute] at h
    split at h <;> cases h
    exact .none rfl rfl
  | command name arguments =>
    obtain ⟨-, rfl⟩ := Prod.mk.inj h
    exact .none rfl rfl
  | foreach | close | script =>
    cases h
    exact .none rfl rfl

/-! ### Rounds and loops -/

section Rounds

open PropertySets (own)

variable (m before : Machine)

theorem enterRound_properties (index : Nat) (key : Option String) (v : Value) :
    (m.enterRound index key v).properties = m.properties.insert own (Entries.putIf roundKey key
      (Entries.put roundIndex (String.ofList (Text.decimal index)) m.properties.ownSet)) := by
  cases key with
  | none => rfl
  | some k =>
    change (m.properties.set roundIndex _).set roundKey k = _
    rw [PropertySets.set, PropertySets.set, PropertySets.ownSet_insert_own,
      PropertySets.insert_insert]
    rfl

theorem enterRound_memory (index : Nat) (key : Option String) (v : Value) :
    (m.enterRound index key v).session.memory = m.session.memory.put roundValue v := rfl

theorem leaveLoop_properties :
    (before.leaveLoop m).properties = m.properties.insert own
      (Entries.assign roundKey (before.properties.get? roundKey)
        (Entries.assign roundIndex (before.properties.get? roundIndex) m.properties.ownSet)) := by
  change (m.properties.restore roundIndex _).restore roundKey _ = _
  rw [PropertySets.restore_eq, PropertySets.restore_eq, PropertySets.ownSet_insert_own,
    PropertySets.insert_insert]

theorem leaveLoop_memory :
    (before.leaveLoop m).session.memory =
      Entries.assign roundValue (before.session.memory.get? roundValue) m.session.memory := by
  rcases h : before.session.memory.get? roundValue with _ | v <;> simp only [leaveLoop, h] <;> rfl

end Rounds

end Machine

end Batch

end YamlQuery
