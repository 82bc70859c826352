import LocalEmu.Base.Scan
import LocalEmu.Core.Iam.Evaluator

/-!
# Explicit Denials

When a request is denied explicitly. The evaluation is a decision chain of
seven scans, and the first three look for a statement that denies the request,
in the identity policies, the resource policy and the permission boundary.

The chain never looks for a denial in the session policies, although it
requires an allow of them, and a statement that raises ends it. These are the
two ways in which a statement that denies a request is not what decides.
-/

namespace LocalEmu.Iam

variable (py : Builtins)

/-- The statements of a list of policies, in the order of the loops. -/
def statements (policies : List Json) : List Json := policies.flatMap iterPolicyStatements

theorem anyStatement_eq (policies : List Json) (test : Json → Except PyError Bool) :
    anyStatement policies test = (statements policies).anyM test :=
  anyM_flatMap _ _ _

/-- A step that denies if it finds something. -/
def denyRule : Rule Decision := ⟨some .explicitDeny, none⟩

/-- A step that allows if it finds something. -/
def grantRule : Rule Decision := ⟨some .allow, none⟩

variable (request : Request) (policies : Policies) (required : Bool)

/-- A step that has to find something, if there is a policy to look at. -/
def requireRule : Rule Decision :=
  ⟨none, if required then some .implicitDeny else none⟩

/-- The steps of an evaluation as scans. -/
def steps : List (Rule Decision × Outcome) :=
  let session := getSessionPolicies request.caller policies.session
  [(denyRule, scan (denies py request false) (statements policies.identity)),
   (denyRule, scan (denies py request true) (statements policies.resource.present)),
   (denyRule, scan (denies py request false) (statements policies.boundary.present)),
   (grantRule, scan (grants py request) (statements policies.resource.present)),
   (requireRule true, scan (allows py request) (statements policies.identity)),
   (requireRule policies.boundary.truthy,
     scan (allows py request) (statements policies.boundary.present)),
   (requireRule !session.isEmpty, scan (allows py request) (statements session))]

theorem restrict_eq_settle (boundary session : List Json) : ((do
      let found ← boundary.anyM (allows py request)
      if required && !found then pure Decision.implicitDeny
      else do
        let allowed ← (statements session).anyM (allows py request)
        if !session.isEmpty && !allowed then pure .implicitDeny else pure .allow :
          Except PyError Decision)).toOption =
      settle .allow
        [(requireRule required, scan (allows py request) boundary),
         (requireRule !session.isEmpty, scan (allows py request) (statements session))] := by
  unfold scan
  rcases boundary.anyM (allows py request) with e | found
  · rfl
  · rcases (statements session).anyM (allows py request) with e | allowed
    · rcases required with _ | _ <;> rcases found with _ | _ <;> rfl
    · rcases session.isEmpty with _ | _ <;> rcases required with _ | _ <;>
        rcases found with _ | _ <;> rcases allowed with _ | _ <;> rfl

/-- The evaluation is the decision chain of its steps. -/
theorem evaluate_eq_settle (h : request.caller.principalType ≠ .root) :
    (evaluate py request policies).toOption = settle .allow (steps py request policies) := by
  simp only [evaluate, if_neg h, anyStatement_eq, steps]
  have hr := restrict_eq_settle py request policies.boundary.truthy
    (statements policies.boundary.present) (getSessionPolicies request.caller policies.session)
  unfold scan at hr ⊢
  rcases (statements policies.identity).anyM (denies py request false) with e | _ | _
  · rfl
  · rcases (statements policies.resource.present).anyM (denies py request true) with e | _ | _
    · rfl
    · rcases (statements policies.boundary.present).anyM (denies py request false) with e | _ | _
      · rfl
      · rcases (statements policies.resource.present).anyM (grants py request) with e | _ | _
        · rfl
        · rcases (statements policies.identity).anyM (allows py request) with e | _ | _
          · rfl
          · rfl
          · exact hr
        · rfl
      · rfl
    · rfl
  · rfl

theorem evaluate_eq_ok_iff (h : request.caller.principalType ≠ .root) (decision : Decision) :
    evaluate py request policies = .ok decision ↔
      settle .allow (steps py request policies) = some decision := by
  rw [← evaluate_eq_settle py _ _ h]
  cases evaluate py request policies with
  | error => exact ⟨nofun, nofun⟩
  | ok => rw [Except.ok.injEq, Except.toOption, Option.some.injEq]

/-! ### Explicit denials -/

/-- The statements the first step looks at, in its order, each with whether it
    belongs to the resource policy. -/
def Policies.checked : List (Bool × Json) :=
  (statements policies.identity).map (fun statement => (false, statement)) ++
    ((statements policies.resource.present).map (fun statement => (true, statement)) ++
      (statements policies.boundary.present).map fun statement => (false, statement))

/-- The statements of all policies of a request. -/
def Request.statements : List (Bool × Json) :=
  policies.checked ++
    (Iam.statements (getSessionPolicies request.caller policies.session)).map
      fun statement => (false, statement)

/-- Some statement of a policy denies the request: it is a `Deny` and matches the action, the
    resource and the conditions and, in the resource policy, the caller. -/
def Denied : Prop :=
  ∃ check ∈ request.statements policies, denies py request check.1 check.2 = .ok true

/-- The first step comes to a statement that denies the request: one of an identity policy, the
    resource policy or the boundary, with none before it that raises. -/
def DenialReached : Prop :=
  ∃ before check after, policies.checked = before ++ check :: after ∧
    denies py request check.1 check.2 = .ok true ∧
    ∀ other ∈ before, ∀ e, denies py request other.1 other.2 ≠ .error e

theorem of_eq_hit_iff (r : Except PyError Bool) : Outcome.of r = .hit ↔ r = .ok true := by
  rcases r with e | _ | _
  · simp [Outcome.of]
  · simp [Outcome.of]
  · simp [Outcome.of]

theorem of_eq_raise_iff (r : Except PyError Bool) :
    Outcome.of r = .raise ↔ ∃ e, r = .error e := by
  rcases r with e | _ | _
  · simp [Outcome.of]
  · simp [Outcome.of]
  · simp [Outcome.of]

theorem denialReached_iff : DenialReached py request policies ↔
      scan (fun check : Bool × Json => denies py request check.1 check.2)
        policies.checked = .hit := by
  rw [scan_hit_iff]
  simp only [DenialReached, of_eq_hit_iff, ne_eq, of_eq_raise_iff, not_exists]

theorem requireRule_ne : (requireRule required).onHit ≠ some .explicitDeny ∧
      (requireRule required).onMiss ≠ some .explicitDeny := by
  rcases required with _ | _
  · decide
  · decide

theorem settle_denyRule_miss (rest : List (Rule Decision × Outcome)) :
    settle .allow ((denyRule, .miss) :: rest) = settle .allow rest := rfl

/-- It denies explicitly where the first step comes to a denial. -/
theorem evaluate_explicitDeny_iff (h : request.caller.principalType ≠ .root) :
    evaluate py request policies = .ok .explicitDeny ↔ DenialReached py request policies := by
  rw [evaluate_eq_ok_iff py _ _ h, denialReached_iff, Policies.checked, scan_append, scan_append,
    scan_map, scan_map, scan_map, steps]
  rcases scan (denies py request false) (statements policies.identity) with _ | _ | _
  · simp [settle, denyRule]
  · rcases scan (denies py request true) (statements policies.resource.present) with _ | _ | _
    · simp [settle, denyRule]
    · rcases scan (denies py request false) (statements policies.boundary.present) with _ | _ | _
      · simp [settle, denyRule]
      · -- No later step denies explicitly.
        simp only [settle_denyRule_miss, if_true, reduceCtorEq, iff_false]
        refine settle_ne _ _ _ (by decide) ?_
        rintro step hs
        simp only [List.mem_cons, List.not_mem_nil, or_false] at hs
        rcases hs with rfl | rfl | rfl | rfl
        · exact ⟨by simp [grantRule], by simp [grantRule]⟩
        · exact requireRule_ne _
        · exact requireRule_ne _
        · exact requireRule_ne _
      · simp [settle, denyRule]
    · simp [settle, denyRule]
  · simp [settle]

theorem DenialReached.denied
    (h : DenialReached py request policies) : Denied py request policies := by
  rcases h with ⟨before, check, after, hc, hd, -⟩
  refine ⟨check, ?_, hd⟩
  rw [Request.statements, hc]
  simp

/-- The evaluation denies explicitly exactly where some statement denies the
    request, and then allows nothing, if and only if the first step comes to a
    statement that denies the request whenever there is one. It does not look
    at session policies, and it ends at a statement that raises. -/
theorem explicit_deny_iff (h : request.caller.principalType ≠ .root) :
    ((evaluate py request policies = .ok .explicitDeny ↔ Denied py request policies) ∧
        (Denied py request policies → evaluate py request policies ≠ .ok .allow)) ↔
      (Denied py request policies → DenialReached py request policies) := by
  rw [evaluate_explicitDeny_iff py _ _ h]
  constructor
  · intro hp
    exact hp.1.mpr
  · intro hr
    refine ⟨⟨fun hd => hd.denied py _ _, hr⟩, fun hd ha => ?_⟩
    have he := (evaluate_explicitDeny_iff py _ _ h).mpr (hr hd)
    rw [ha] at he
    cases he

/-- Built-in functions on texts without wildcards other than a star. -/
def plainBuiltins : Builtins where
  str value := match value with
    | .str s => s
    | _ => ""
  lower text := if text = "s3:DeleteObject" then "s3:deleteobject" else text
  fnmatch name pattern := pattern == "*" || name == pattern
  compareFloat _ _ := .ok none
  strptime _ _ := .error .valueError
  ipInNetwork _ _ := none

/-- A statement about one action on every resource. -/
def statementOn (effect action : String) : Json :=
  .obj [("Effect", .str effect), ("Action", .str action), ("Resource", .str "*")]

/-- A request to delete an object, by a user or in a session. -/
def deleteRequest (principalType : PrincipalType) (arn : String) : Request where
  caller := { principalType := principalType, accountId := "000000000000", arn := arn }
  action := "s3:DeleteObject"
  resource := "arn:aws:s3:::b/k"

/-- An identity policy that allows everything but deleting objects. -/
def identityDenied : Policies where
  identity := [.obj [("Statement", .arr
    [statementOn "Allow" "*", statementOn "Deny" "s3:DeleteObject"])]]

/-- An identity policy that allows everything, and a session policy that
    allows everything but deleting objects. -/
def sessionDenied : Policies where
  identity := [.obj [("Statement", .arr [statementOn "Allow" "*"])]]
  session := [.obj [("Statement", .arr
    [statementOn "Allow" "*", statementOn "Deny" "s3:DeleteObject"])]]

/-- The first step comes to the denial of the identity policy. -/
theorem explicit_deny_of_identity :
    evaluate plainBuiltins (deleteRequest .user "arn:aws:iam::000000000000:user/alice")
        identityDenied = .ok .explicitDeny := by
  have hr : DenialReached plainBuiltins
      (deleteRequest .user "arn:aws:iam::000000000000:user/alice") identityDenied := by
    refine ⟨[(false, statementOn "Allow" "*")], (false, statementOn "Deny" "s3:DeleteObject"), [],
      rfl, rfl, fun other ho e he => ?_⟩
    rw [List.mem_singleton] at ho
    subst ho
    cases he
  have hp := (explicit_deny_iff _
    _ _
    (by decide)).mpr fun _ => hr
  exact hp.1.mpr (hr.denied _ _ _)

/-- A session policy denies the request, and it is allowed. -/
theorem explicit_deny_session_ignored :
    ¬ ((evaluate plainBuiltins
          (deleteRequest .assumedRole "arn:aws:sts::000000000000:assumed-role/R/s") sessionDenied =
            .ok .explicitDeny ↔
        Denied plainBuiltins
          (deleteRequest .assumedRole "arn:aws:sts::000000000000:assumed-role/R/s")
          sessionDenied) ∧
      (Denied plainBuiltins
          (deleteRequest .assumedRole "arn:aws:sts::000000000000:assumed-role/R/s") sessionDenied →
        evaluate plainBuiltins
          (deleteRequest .assumedRole "arn:aws:sts::000000000000:assumed-role/R/s") sessionDenied ≠
            .ok .allow)) := by
  rintro ⟨-, hn⟩
  refine hn ⟨(false, statementOn "Deny" "s3:DeleteObject"), ?_, rfl⟩ rfl
  exact List.mem_cons_of_mem _ (List.mem_cons_of_mem _ (List.mem_cons_self ..))

end LocalEmu.Iam
