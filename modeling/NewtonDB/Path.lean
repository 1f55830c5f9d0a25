/-
# Property paths

`readPath`, `validatePath` and `samePath` of `src/path.ts`.  A path is checked as
a list of tokens: what an element of the array that holds it shows to `typeof`.
-/

import NewtonDB.Errors

namespace NewtonDB

/-- An array element as `validatePath` distinguishes them. -/
inductive TokenView where
  | string (value : JsString)
  | number (value : JsNumber)
  | other
  deriving DecidableEq

/-- The token as `validatePath` sees it. -/
def PathToken.view : PathToken → TokenView
  | .index n => .number n
  | .name s => .string s

/-- A non-negative safe integer. -/
def JsNumber.toIndex? : JsNumber → Option ℕ
  | .finite x =>
      match x.toInt? with
      | some (.ofNat n) => if n ≤ 2 ^ 53 - 1 then some n else none
      | _ => none
  | _ => none

/-- One turn of the loop of `validatePath`. -/
def checkToken (index : ℕ) : TokenView → Except NewtonError PathToken
  | .string s => .ok (.name s)
  | .number n =>
      if n.toIndex?.isSome && 0 < index then .ok (.index n)
      else .error (.invalidArgument invalidToken)
  | .other => .error (.invalidArgument invalidToken)
where
  invalidToken := js ("The first path token must be a string; later tokens must be strings " ++
    "or non-negative safe integers")

/-- `validatePath` of an array of tokens. -/
def validatePath (tokens : List TokenView) (maxTokens : ℕ) : Except NewtonError PropertyPath :=
  if tokens.length = 0 || maxTokens < tokens.length then
    .error (.invalidArgument (js "A property path must contain 1-" ++ natText maxTokens ++
      js " tokens"))
  else tokens.zipIdx.mapM fun (token, index) => checkToken index token

/-- A token that passes the check is returned as it is.  The view of a token is that token, read
as a value. -/
theorem checkToken_view {index : ℕ} {token result : PathToken}
    (h : checkToken index token.view = .ok result) : result = token := by
  cases token with
  | name s => exact (Except.ok.inj h).symm
  | index n =>
      simp only [checkToken, PathToken.view] at h
      split_ifs at h
      exact (Except.ok.inj h).symm

/-- A path that is valid is its own validation.  So a path that was validated once passes again,
unchanged. -/
theorem validatePath_view {path result : PropertyPath} {maxTokens : ℕ}
    (h : validatePath (path.map PathToken.view) maxTokens = .ok result) : result = path := by
  have aux : ∀ (l : PropertyPath) (k : ℕ) (r : PropertyPath),
      (((l.map PathToken.view).zipIdx k).mapM fun (token, index) => checkToken index token) =
        .ok r → r = l := by
    intro l
    induction l with
    | nil => intro k r h; exact (Except.ok.inj h).symm
    | cons token l ih =>
        intro k r h
        rw [List.map_cons, List.zipIdx_cons, List.mapM_cons] at h
        obtain ⟨head, hh, h⟩ := bind_eq_ok.1 h
        obtain ⟨tail, ht, h⟩ := bind_eq_ok.1 h
        rw [← Except.ok.inj h, checkToken_view hh, ih _ _ ht]
  unfold validatePath at h
  split_ifs at h
  exact aux path 0 result h

/-- `readPath`: the value at `path`, or `undefined`. -/
def readPath : PropertyPath → Json → Option Json
  | [], current => some current
  | .index n :: rest, .arr items =>
      match n.toIndex? with
      | some i => items[i]? >>= readPath rest
      | none => none
  | .name s :: rest, .obj props => Assoc.get? props s >>= readPath rest
  | _, _ => none

/-- `left === right` on tokens. -/
def PathToken.same : PathToken → PathToken → Bool
  | .index a, .index b => a.same b
  | .name a, .name b => a == b
  | _, _ => false

/-- `samePath`. -/
def samePath : PropertyPath → PropertyPath → Bool
  | [], [] => true
  | a :: as, b :: bs => a.same b && samePath as bs
  | _, _ => false

end NewtonDB
