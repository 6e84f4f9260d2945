import DBindings.Proofs.Printing.Sites
import DBindings.Proofs.Requests.Queue

/-!
# Values passed by reference and their requests

* `Fragment.Accompanied`      a `.byRef` that comes with a request to the record of its value;
* `byRef_accompanied_iff`     it does exactly where the type of the value names a record.
-/

namespace DBindings

namespace Fragment

/-- If this is a `.byRef`, it raises a request to the record of its value, under the name of the
record, and the request waits in the queue. -/
def Accompanied (names : NameTable) (q : FeedbackQueue) : Fragment → Prop
  | suffix ⟨_, _, .byRef ty⟩ request => ∃ ref, ty.bind Ty.record? = some ref ∧
      request = some ⟨ref.id, names.refName ref⟩ ∧ ⟨ref.id, names.refName ref⟩ ∈ q.pending
  | _ => True

/-- If this is a `.byRef`, the type of its value names a record. -/
def BindsRecord : Fragment → Prop
  | suffix ⟨_, _, .byRef ty⟩ _ => (ty.bind Ty.record?).isSome = true
  | _ => True

end Fragment

namespace Printed

theorem mem_requests {p : Printed} {w : Rewrite} {r : Request}
    (h : Fragment.suffix w (some r) ∈ p.fragments) : r ∈ p.requests :=
  List.mem_filterMap.2 ⟨_, h, rfl⟩

/-- The `.byRef` of a type that names a record raises the request to this record. -/
theorem Sited.accompanied_iff {cx : PrintContext} {Q : Expr → Prop} {p : Printed}
    (hp : p.Sited cx Q)
    (q : FeedbackQueue) {f : Fragment} (hf : f ∈ p.fragments) :
    f.Accompanied cx.names (q.pushAll p.requests) ↔ f.BindsRecord := by
  have hbyRef : ∀ (e : Expr) (text : String) (ty : Ty),
      .suffix ⟨e, text, .byRef (some ty)⟩ (requestFor cx.names (some ty)) ∈ p.fragments →
        (Fragment.Accompanied cx.names (q.pushAll p.requests)
            (.suffix ⟨e, text, .byRef (some ty)⟩ (requestFor cx.names (some ty))) ↔
          Fragment.BindsRecord (.suffix ⟨e, text, .byRef (some ty)⟩
            (requestFor cx.names (some ty)))) := by
    intro e text ty hmem
    constructor
    · rintro ⟨ref, href, -⟩
      show ((some ty).bind Ty.record?).isSome = true
      rw [href]
      rfl
    · intro hrec
      obtain ⟨ref, href⟩ := Option.isSome_iff_exists.1 hrec
      have hrequest : requestFor cx.names (some ty) = some ⟨ref.id, cx.names.refName ref⟩ := by
        unfold requestFor
        rw [href]
        rfl
      rw [hrequest] at hmem
      exact ⟨ref, href, hrequest, FeedbackQueue.mem_pushAll.2 (Or.inr (mem_requests hmem))⟩
  cases hp f hf with
  | text s => exact Iff.rfl
  | decay inner _ => exact Iff.rfl
  | trait kind inner _ => exact Iff.rfl
  | temporary inner ty _ => exact hbyRef _ _ _ hf
  | default value ty _ _ => exact hbyRef _ _ _ hf

end Printed

/-- In a printed expression and in a parameter list, a `.byRef` comes with a request to the record
of its value, which waits in the queue, exactly where the type of the value names a record. -/
theorem byRef_accompanied_iff (cx : PrintContext) (e : Expr) (f : Function) (q : FeedbackQueue) :
    (∀ x ∈ (e.print cx).fragments,
      x.Accompanied cx.names (q.pushAll (e.print cx).requests) ↔ x.BindsRecord) ∧
    (∀ x ∈ (f.printParams cx.names).fragments,
      x.Accompanied cx.names (q.pushAll (f.printParams cx.names).requests) ↔ x.BindsRecord) :=
  ⟨fun _ hx => (e.sited_print cx).accompanied_iff q hx,
    fun _ hx => (f.sited_printParams cx.names).accompanied_iff q hx⟩

/-- A call of a function with a temporary integer for a parameter of type `const int&`. -/
def boundInteger : Expr :=
  .call (.var "f" (.function .void [Ty.int.constRef] false))
    [.materializeTemporary (.int 3) .int] (some [Ty.int.constRef])

/-- Not every `.byRef` comes with a request: an integer has no record. -/
theorem boundInteger_unaccompanied :
    (boundInteger.print {}).text = "f(3.byRef)" ∧ (boundInteger.print {}).requests = [] ∧
    ¬ ∀ (e : Expr) (q : FeedbackQueue), ∀ x ∈ (e.print {}).fragments,
      x.Accompanied {} (q.pushAll (e.print {}).requests) := by
  have hfragments : (boundInteger.print {}).fragments =
      [.text "", .text "f", .text "", .text "(", .text "3",
        .suffix ⟨.materializeTemporary (.int 3) .int, "3", .byRef (some .int)⟩ none,
        .text ")"] := by rfl
  refine ⟨by rfl, by rfl, fun h => ?_⟩
  have haccompanied := h boundInteger {} (.suffix ⟨.materializeTemporary (.int 3) .int, "3",
    .byRef (some .int)⟩ none) (hfragments ▸ by simp)
  obtain ⟨ref, href, -⟩ := haccompanied
  exact nomatch (show (none : Option DeclRef) = some ref from href)

end DBindings
