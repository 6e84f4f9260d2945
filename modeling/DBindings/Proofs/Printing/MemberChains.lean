import DBindings.Proofs.Printing.ImplicitNodes
import DBindings.Proofs.Printing.Qualifiers

/-!
# Chains of member accesses

D looks through an anonymous member, so an access to one is not written.  The dot behind it was
written in front of it; what the member after it has to know is only that there is one.

* `Link`                        an access to a member without a qualifier, and the nodes over it;
* `Expr.text_chain`             the names of a chain behind its receiver, joined by dots;
* `Expr.chain_dotted_iff`       anonymous members leave no trace, and the names are joined to the
                                root by one dot exactly if the root is an implicit receiver or its
                                text can take one;
* `convertedReceiver_dotted`    a conversion of an implicit receiver leaves the dot alone.
-/

namespace DBindings

/-- An access to a member without a qualifier, and the implicit nodes over it. -/
structure Link where
  info : MemberInfo
  unqualified : info.qualifier = none := by rfl
  nodes : List ImplicitNode := []
  silent : ∀ n ∈ nodes, n.isSilent = true := by decide

namespace Link

/-- The access to the member of a base. -/
def of (l : Link) (base : Expr) : Expr := (Expr.member base l.info).under l.nodes

def isNamed (l : Link) : Bool := !l.info.anonymous

def name (cx : PrintContext) (l : Link) : String := Expr.memberText cx l.info

end Link

/-- Names behind a text with one dot in front of each.  The first name has none where there is
nothing to part it from, or a dot already. -/
def Text.behind (text : String) (names : List String) : String :=
  text ++ (if text = "" ∨ text.toList.getLast? = some '.' then "" else ".") ++
    String.intercalate "." names

namespace Expr

/-- A chain of accesses, the first of them at the root. -/
def chain (root : Expr) (links : List Link) : Expr := links.foldl (fun base l => l.of base) root

def isMember : Expr → Bool
  | member .. => true
  | _ => false

/-- The root of a chain as it is written: an implicit receiver only in polymorphic records. -/
def rootText (cx : PrintContext) (root : Expr) : String :=
  if root.ignoreImplicit.isImplicitThis then if cx.polymorphic then "this" else ""
  else (root.print cx).text

section
variable (cx : PrintContext)

theorem text_link (l : Link) (base : Expr) :
    ((l.of base).print cx).text = receiver cx base ++ if l.isNamed then l.name cx else "" := by
  have hqualifier : writtenQualifier cx base l.info = "" := by
    unfold writtenQualifier
    rw [l.unqualified]
    exact ite_self _
  have hmember : (member base l.info).isNullPointerConstant = false := rfl
  unfold Link.of Link.isNamed
  rw [text_under l.silent hmember, text_member, hqualifier, String.append_empty]
  cases l.info.anonymous <;> rfl

theorem receiver_link (l : Link) (base : Expr) :
    receiver cx (l.of base) = receiver cx base ++ if l.isNamed then l.name cx ++ "." else "" := by
  have hlink : (l.of base).ignoreImplicit = member base l.info := ignoreImplicit_under _ _
  have hreceiver : receiver cx (l.of base) =
      ((l.of base).print cx).text ++ if l.info.anonymous then "" else "." := by
    unfold receiver
    rw [hlink]
    rfl
  rw [hreceiver, text_link, String.append_assoc]
  unfold Link.isNamed
  cases l.info.anonymous <;> rfl

/-- The names of a chain stand behind the receiver of its first member. -/
theorem text_chain (root : Expr) (links : List Link) {last : Link} (hlast : last.isNamed = true) :
    ((root.chain (links ++ [last])).print cx).text = receiver cx root ++
      String.intercalate "." ((links.filter Link.isNamed ++ [last]).map (Link.name cx)) := by
  induction links generalizing root with
  | nil =>
    show ((last.of root).print cx).text = _
    rw [text_link, if_pos hlast]
    exact congrArg _ (String.intercalate_singleton ..).symm
  | cons l links ih =>
    show (((l.of root).chain (links ++ [last])).print cx).text = _
    rw [ih, receiver_link, String.append_assoc]
    by_cases hl : l.isNamed = true
    · have hne : (links.filter Link.isNamed ++ [last]).map (Link.name cx) ≠ [] := by simp
      rw [if_pos hl, List.filter_cons_of_pos hl, List.cons_append, List.map_cons,
        String.intercalate_cons_of_ne_nil hne, String.append_assoc]
    · rw [if_neg hl, List.filter_cons_of_neg hl, String.empty_append]

/-- Behind a root that is no member access stands one dot, unless nothing is written for it. -/
theorem receiver_root {root : Expr} (hroot : root.ignoreImplicit.isMember = false) :
    receiver cx root = if root.ignoreImplicit.isImplicitThis then
        if cx.polymorphic then "this." else ""
      else (root.print cx).text ++ "." := by
  have hnamed : root.ignoreImplicit.isAnonymousMember = false := by
    cases h : root.ignoreImplicit <;> first | rfl | exact nomatch h ▸ hroot
  unfold receiver
  rw [hnamed]
  rfl

/-- Anonymous members leave no trace in the text of a chain.  The names that are left stand behind
the root with one dot in front of each, none of them first or doubled, exactly if the root is an
implicit receiver or its text is not empty and does not end with a dot. -/
theorem chain_dotted_iff {root : Expr} (hroot : root.ignoreImplicit.isMember = false)
    (links : List Link) {last : Link} (hlast : last.isNamed = true) :
    ((root.chain (links ++ [last])).print cx).text =
        ((root.chain (links.filter Link.isNamed ++ [last])).print cx).text ∧
    (((root.chain (links ++ [last])).print cx).text = Text.behind (root.rootText cx)
          ((links.filter Link.isNamed ++ [last]).map (Link.name cx)) ↔
      root.ignoreImplicit.isImplicitThis = true ∨
        ((root.print cx).text ≠ "" ∧ (root.print cx).text.toList.getLast? ≠ some '.')) := by
  refine ⟨?_, ?_⟩
  · rw [text_chain cx root links hlast, text_chain cx root _ hlast, List.filter_filter]
    simp only [Bool.and_self]
  · rw [text_chain cx root links hlast, receiver_root cx hroot]
    unfold Text.behind rootText
    rw [String.append_left_inj]
    cases hthis : root.ignoreImplicit.isImplicitThis with
    | true =>
      refine iff_of_true ?_ (Or.inl rfl)
      rw [if_pos rfl, if_pos rfl]
      cases cx.polymorphic <;> rfl
    | false =>
      rw [if_neg (by decide), if_neg (by decide), String.append_right_inj, ← not_or]
      by_cases hdot : (root.print cx).text = "" ∨ (root.print cx).text.toList.getLast? = some '.'
      · rw [if_pos hdot]
        exact iff_of_false (by decide) fun h => h.elim nofun fun hroot => hroot hdot
      · rw [if_neg hdot]
        exact iff_of_true rfl (Or.inr hdot)

end

end Expr

/-- An anonymous union as the base of its members. -/
def anonymousUnion : Link where
  info := { member := "", ty := .record ⟨3, ""⟩, anonymous := true }
  nodes := [.cast .derivedToBase (.record ⟨3, ""⟩)]

def cornerLink : Link where
  info := { member := "corner", ty := .record ⟨2, "Point"⟩ }
  nodes := [.temporary (.record ⟨2, "Point"⟩), .cast .noOp (.record ⟨2, "Point"⟩)]

def valueLink : Link where
  info := { member := "value", ty := .int }

/-- Two members with anonymous ones around the first of them. -/
theorem corner_dotted :
    let cx : PrintContext := { polymorphic := true }
    let root : Expr := .implicitCast .derivedToBase (.thisPtr true) (.pointer (.record ⟨1, "Box"⟩))
    let links := [anonymousUnion, anonymousUnion, cornerLink, anonymousUnion]
    root.ignoreImplicit.isMember = false ∧ valueLink.isNamed = true ∧
    ((root.chain (links ++ [valueLink])).print cx).text = "this.corner.value" := by
  intro cx root links
  have hroot : root.ignoreImplicit.isMember = false := rfl
  have hlast : valueLink.isNamed = true := rfl
  have htext := (Expr.chain_dotted_iff cx hroot links hlast).2.2 (Or.inl rfl)
  refine ⟨hroot, hlast, htext.trans ?_⟩
  decide +kernel

/-- `operator Data&()` in a function of its own record. -/
def convertedReceiver : Expr :=
  .memberCall (.member (.thisPtr true) { member := "operator Data &", ty := .void }) [] none true

/-- The conversion writes only what it converts, which is an implicit receiver here, and the access
behind it writes its dot. -/
theorem convertedReceiver_dotted :
    convertedReceiver.ignoreImplicit.isMember = false ∧
    ((convertedReceiver.chain [anonymousUnion, valueLink]).print {}).text = ".value" ∧
    Text.behind (convertedReceiver.rootText {}) ["value"] = "value" ∧
    ¬ ∀ (cx : PrintContext) (root : Expr) (links : List Link) (last : Link),
      root.ignoreImplicit.isMember = false → last.isNamed = true →
        ((root.chain (links ++ [last])).print cx).text = Text.behind (root.rootText cx)
          ((links.filter Link.isNamed ++ [last]).map (Link.name cx)) := by
  have htext : ((convertedReceiver.chain [anonymousUnion, valueLink]).print {}).text
      = ".value" := by decide +kernel
  refine ⟨rfl, htext, by decide +kernel, fun h => ?_⟩
  have hjoined := h {} convertedReceiver [anonymousUnion] valueLink rfl rfl
  have hclaimed : Text.behind (convertedReceiver.rootText {})
      (([anonymousUnion].filter Link.isNamed ++ [valueLink]).map (Link.name {})) = "value" := by
    decide +kernel
  exact absurd (htext.symm.trans (hjoined.trans hclaimed)) (by decide)

end DBindings
