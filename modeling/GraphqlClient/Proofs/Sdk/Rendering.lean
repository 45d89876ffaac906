import Mathlib.Logic.Basic
import GraphqlClient.Sdk.Recording

/-!
# Renderings that are kept

Operations are recorded in one of two ways until the recording is finished; then its factory can be
asked for them and can be rendered, and the first rendering is kept. What is kept is always what a
new rendering would give: it is a rendering of the factory's operations, and nothing that can be
asked of a factory changes these.
-/

namespace GraphqlClient

/-- The ways to record an operation: as a record, or by the parts that a visit has at hand. -/
inductive RecordingCall where
  | record (operation : OperationRecord)
  | build (operation : NamedOperation) (names : OperationNames)

/-- The operation that a call records. -/
def RecordingCall.operation : RecordingCall → OperationRecord
  | .record operation => operation
  | .build operation names => ⟨operation, names⟩

/-- The recording after a call. -/
def Recording.call (r : Recording) : RecordingCall → Recording
  | .record operation => r.record operation
  | .build operation names => (r.build ⟨operation, names⟩).2

/-- What can be asked of a factory. -/
inductive FactoryCall where
  | operations
  | render
  deriving DecidableEq

/-- What a factory answers. -/
inductive FactoryAnswer where
  | operations (records : List OperationRecord)
  | rendering (text : Except UnsupportedOperation String)

/-- What is to be answered for some operations: they themselves, or their factory's text. -/
def FactoryAnswer.ofRecords (records : List OperationRecord) : FactoryCall → FactoryAnswer
  | .operations => .operations records
  | .render => .rendering (factoryText records)

namespace Factory

/-- The answer to a call, and the factory after it. -/
def call (f : Factory) : FactoryCall → FactoryAnswer × Factory
  | .operations => (.operations f.records, f)
  | .render => (.rendering f.render.1, f.render.2)

/-- The answers to some calls in a row, and the factory after them. -/
def calls (f : Factory) : List FactoryCall → List FactoryAnswer × Factory
  | [] => ([], f)
  | c :: cs =>
    let first := f.call c
    let others := first.2.calls cs
    (first.1 :: others.1, others.2)

/-- A factory has some operations, and if it keeps a rendering, then it is theirs. -/
structure Keeps (records : List OperationRecord) (f : Factory) : Prop where
  records_eq : f.records = records
  rendered_eq : ∀ text, f.rendered = some text → text = factoryText records

/-- A new factory keeps nothing. -/
theorem keeps_ofRecords (records : List OperationRecord) : Keeps records (ofRecords records) :=
  ⟨rfl, nofun⟩

/-- A rendering is that of the factory's operations, whether it is new or was kept, and it is kept
from then on. -/
theorem Keeps.render_eq {records : List OperationRecord} {f : Factory} (h : f.Keeps records) :
    f.render = (factoryText records, ⟨records, some (factoryText records)⟩) := by
  obtain ⟨own, rendered⟩ := f
  obtain rfl : own = records := h.records_eq
  cases rendered with
  | none => rfl
  | some text =>
    obtain rfl : text = factoryText own := h.rendered_eq text rfl
    rfl

/-- A call is answered as if nothing were kept, and leaves a factory of the same operations. -/
theorem Keeps.call {records : List OperationRecord} {f : Factory} (h : f.Keeps records)
    (c : FactoryCall) :
    (f.call c).1 = .ofRecords records c ∧ (f.call c).2.Keeps records ∧
      (f.call c).2.rendered = if c = .render then some (factoryText records) else f.rendered := by
  cases c with
  | operations => exact ⟨congrArg FactoryAnswer.operations h.records_eq, h, rfl⟩
  | render =>
    rw [Factory.call, h.render_eq]
    exact ⟨rfl, ⟨rfl, fun text htext => (Option.some.inj htext).symm⟩, rfl⟩

/-- So are calls in a row. -/
theorem Keeps.calls {records : List OperationRecord} {f : Factory} (h : f.Keeps records)
    (cs : List FactoryCall) :
    (f.calls cs).1 = cs.map (.ofRecords records) ∧ (f.calls cs).2.Keeps records ∧
      (f.calls cs).2.rendered =
        if .render ∈ cs then some (factoryText records) else f.rendered := by
  induction cs generalizing f with
  | nil => exact ⟨rfl, h, rfl⟩
  | cons c cs ih =>
    obtain ⟨hanswer, hkeeps, hrendered⟩ := h.call c
    obtain ⟨hanswers, hkept, hlast⟩ := ih hkeeps
    refine ⟨congrArg₂ List.cons hanswer hanswers, hkept, ?_⟩
    rw [Factory.calls, hlast, hrendered]
    by_cases hlater : .render ∈ cs
    · rw [if_pos hlater, if_pos (List.mem_cons_of_mem c hlater)]
    · rw [if_neg hlater]
      simp [hlater, eq_comm]

end Factory

/-- The recording after some calls holds the operations of the calls, in their order. -/
theorem Recording.foldl_call (r : Recording) (recorded : List RecordingCall) :
    recorded.foldl Recording.call r = ⟨r.records ++ recorded.map RecordingCall.operation⟩ := by
  induction recorded generalizing r with
  | nil => simp
  | cons c recorded ih => cases c <;> simp [ih, call, record, build, RecordingCall.operation]

/-- Operations may be recorded in either way, which comes to the same; and whatever is asked of the
finished factory, and in whatever order, it answers with the operations in the order of the calls and
with their rendering, be it a text or an error, as if nothing were kept. No call changes its
operations, and what it keeps in the end is their rendering if it was asked for and nothing if not. -/
theorem Factory.calls_of_finish (recorded : List RecordingCall) (calls : List FactoryCall) :
    let records := recorded.map RecordingCall.operation
    let answered := (recorded.foldl Recording.call .empty).finish.calls calls
    answered.1 = calls.map (.ofRecords records) ∧ answered.2.records = records ∧
      answered.2.rendered = (if .render ∈ calls then some (factoryText records) else none) ∧
      ∀ (r : Recording) (operation : NamedOperation) (names : OperationNames),
        r.build ⟨operation, names⟩ = (none, r.record ⟨operation, names⟩) := by
  intro records answered
  have hfinish : (recorded.foldl Recording.call .empty).finish = .ofRecords records := by
    rw [Recording.foldl_call, Recording.empty, List.nil_append]
    rfl
  obtain ⟨hanswers, hkeeps, hrendered⟩ := (keeps_ofRecords records).calls calls
  rw [← hfinish] at hanswers hkeeps hrendered
  refine ⟨hanswers, hkeeps.records_eq, ?_, fun r operation names => rfl⟩
  rw [hrendered, hfinish]
  rfl

end GraphqlClient
