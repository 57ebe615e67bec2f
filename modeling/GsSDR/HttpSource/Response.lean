import GsSDR.HttpSource.Poll
import GsSDR.JsonText.Reading

/-!
# The text of an acknowledgement

`create_json_response` writes the telecommand that has been received as a JSON object
with three members (`readTyped_createJsonResponse`).
-/

namespace GsSDR

namespace HttpSource

open Cxx Json

/-! ## The source -/

def stateKey : Str := ['s', 't', 'a', 't', 'e']

/-- The tree `oroot_response`. -/
def orootResponse (a : Ack) : List (Str × Str) :=
  [(timestampKey, toStr a.timestamp),
    (spacecraftIdKey, toStr a.spacecraftId),
    (stateKey, ['O', 'K'])]

/-- `create_json_response`. -/
def createJsonResponse (boost : Boost) (a : Ack) : Str := createJsonString boost (orootResponse a)

/-- The integer fields. -/
def Ack.integers (a : Ack) : List (Str × Int) :=
  [(timestampKey, a.timestamp), (spacecraftIdKey, a.spacecraftId)]

/-! ## The leaves -/

/-- The leaves of the tree. -/
def Ack.leaves (a : Ack) : List (Str × Piece) :=
  [(timestampKey, .str (toStr a.timestamp)),
    (spacecraftIdKey, .str (toStr a.spacecraftId)),
    (stateKey, .str ['O', 'K'])]

/-- The members that a reader finds. -/
def Ack.values (a : Ack) : List (Str × Value) :=
  [(timestampKey, numeral a.timestamp),
    (spacecraftIdKey, numeral a.spacecraftId),
    (stateKey, .str ['O', 'K'])]

theorem orootResponse_eq (a : Ack) :
    orootResponse a = a.leaves.map fun m => (m.1, m.2.data) := rfl

theorem Ack.leaves_ok (a : Ack) : ∀ m ∈ a.leaves, LeafOk m := by
  simp only [Ack.leaves, List.forall_mem_cons, List.not_mem_nil, false_imp_iff, implies_true,
    and_true]
  exact ⟨leafOk_number ⟨rfl, rfl, rfl⟩ a.timestamp, leafOk_number ⟨rfl, rfl, rfl⟩ a.spacecraftId,
    ⟨rfl, rfl, rfl⟩, rfl, rfl⟩

theorem Ack.leaves_result (a : Ack) : a.leaves.map (fun m => (m.1, m.2.result)) = a.values := by
  simp only [Ack.leaves, List.map_cons, List.map_nil, result_toStr]
  rfl

/-- The text is a JSON object with these members. -/
theorem readTyped_createJsonResponse {boost : Boost} (hboost : boost.Documented) (a : Ack) :
    readTyped (createJsonResponse boost a) = some a.values := by
  have hne : a.leaves ≠ [] := List.cons_ne_nil _ _
  rw [createJsonResponse, orootResponse_eq,
    readTyped_createJsonString hboost hne a.leaves_ok, a.leaves_result]

end HttpSource

end GsSDR
