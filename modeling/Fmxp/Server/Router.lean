import Mathlib.Data.List.AList
import Mathlib.Data.List.Induction
import Fmxp.Server.Requests

/-! `route` and `_router`: which handler a request goes to.

Handlers are anything (`ρ`): what they do is up to the application. A server has handlers for paths, the last
one registered for each, and handlers for what a function says, in the order in which they were
registered. `handlerFor` is what that comes to, read off the registrations themselves (`router_routes`); a
`Registry` keeps both. -/
namespace Fmxp.Server

/-- The arguments of a call of `route`. -/
inductive Registration (ρ : Type) where
  | path (path : Bytes) (handler : ρ)
  | func (matcher : Request → Bool) (handler : ρ)

/-- The two tables of `Server`. -/
structure Routes (ρ : Type) where
  routes : AList fun _ : Bytes => ρ := ∅
  funcRoutes : List ((Request → Bool) × ρ) := []

variable {ρ : Type}

def Routes.route (r : Routes ρ) : Registration ρ → Routes ρ
  | .path path handler => {r with routes := r.routes.insert path handler}
  | .func matcher handler => {r with funcRoutes := r.funcRoutes ++ [(matcher, handler)]}

/-- `_router`, up to the call of the handler; where it finds none it responds itself. -/
def Routes.router (r : Routes ρ) (req : Request) : Option ρ :=
  match r.routes.lookup req.path with
  | some handler => some handler
  | none => (r.funcRoutes.find? fun (matcher, _) => matcher req).map Prod.snd

/-! ### What the tables stand for -/

/-- The handler, where it is registered for the very path. -/
def Registration.exact (path : Bytes) : Registration ρ → Option ρ
  | .path path' handler => if path = path' then some handler else none
  | .func _ _ => none

/-- The handler, where its function says so. -/
def Registration.matched (req : Request) : Registration ρ → Option ρ
  | .path _ _ => none
  | .func matcher handler => if matcher req then some handler else none

/-- Of the handlers for the very path the one that was registered last; if there is none, the first of those
whose function takes the request. -/
def handlerFor (registered : List (Registration ρ)) (req : Request) : Option ρ :=
  match registered.reverse.findSome? (Registration.exact req.path) with
  | some handler => some handler
  | none => registered.findSome? (Registration.matched req)

/-- The tables after some registrations. -/
def routesOf (registered : List (Registration ρ)) : Routes ρ := registered.foldl Routes.route {}

theorem routesOf_append (registered : List (Registration ρ)) (registration : Registration ρ) :
    routesOf (registered ++ [registration]) = (routesOf registered).route registration := by
  rw [routesOf, List.foldl_append]
  rfl

theorem routes_lookup (registered : List (Registration ρ)) (path : Bytes) :
    (routesOf registered).routes.lookup path = registered.reverse.findSome? (Registration.exact path) := by
  induction registered using List.reverseRecOn with
  | nil => rfl
  | append_singleton registered registration ih =>
    rw [routesOf_append, List.reverse_append, List.reverse_singleton, List.singleton_append, List.findSome?_cons, ← ih]
    cases registration with
    | path path' handler =>
      by_cases h : path = path'
      · subst h
        simp only [Routes.route, Registration.exact, AList.lookup_insert, if_true]
      · simp only [Routes.route, Registration.exact, AList.lookup_insert_ne h, if_neg h]
    | func matcher handler => rfl

theorem funcRoutes_find (registered : List (Registration ρ)) (req : Request) :
    ((routesOf registered).funcRoutes.find? fun (matcher, _) => matcher req).map Prod.snd =
      registered.findSome? (Registration.matched req) := by
  induction registered using List.reverseRecOn with
  | nil => rfl
  | append_singleton registered registration ih =>
    rw [routesOf_append, List.findSome?_append, ← ih]
    cases registration with
    | path path handler =>
      rw [List.findSome?_singleton, Registration.matched, Option.or_none]
      rfl
    | func matcher handler =>
      rw [Routes.route, List.find?_append, Option.map_or, List.findSome?_singleton, Registration.matched]
      congr 1
      rw [List.find?_singleton]
      by_cases h : matcher req = true
      · rw [if_pos h, if_pos h]
        rfl
      · rw [if_neg h, if_neg h]
        rfl

theorem router_routes (registered : List (Registration ρ)) (req : Request) :
    (routesOf registered).router req = handlerFor registered req := by
  rw [Routes.router, handlerFor, routes_lookup]
  split
  · rfl
  · exact funcRoutes_find registered req

/-- The tables of a server, with the calls of `route` that have made them what they are. -/
structure Registry (ρ : Type) where
  routes : Routes ρ := {}
  registered : List (Registration ρ) := []
  made : routes = routesOf registered := by rfl

def Registry.route (r : Registry ρ) (registration : Registration ρ) : Registry ρ where
  routes := r.routes.route registration
  registered := r.registered ++ [registration]
  made := by rw [r.made, routesOf_append]

theorem Registry.router_eq (r : Registry ρ) (req : Request) : r.routes.router req = handlerFor r.registered req := by
  rw [r.made, router_routes]

end Fmxp.Server
