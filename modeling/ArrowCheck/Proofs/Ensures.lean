/-
This file reasons about computations that change a state. What a computation
ensures is a property of its result and of the state that it leaves, and the
properties of its steps are put together in the order of the steps. Some
properties only make sense for all states that come later.
-/

import ArrowCheck.Typing.Session

namespace ArrowCheck

variable {State Result Other : Type}

/-- A computation started in a state gives a result and leaves a state with a property. -/
def Ensures (action : StateM State Result) (state : State)
    (post : Result → State → Prop) : Prop :=
  post (action state).1 (action state).2

namespace Ensures

theorem pure {value : Result} {state : State} {post : Result → State → Prop}
    (holds : post value state) : Ensures (Pure.pure value) state post :=
  holds

theorem bind {action : StateM State Result} {next : Result → StateM State Other} {state : State}
    {middle : Result → State → Prop} {post : Other → State → Prop}
    (first : Ensures action state middle)
    (rest : ∀ value state, middle value state → Ensures (next value) state post) :
    Ensures (action >>= next) state post :=
  rest _ _ first

theorem map {action : StateM State Result} {change : Result → Other} {state : State}
    {post : Other → State → Prop}
    (holds : Ensures action state fun value => post (change value)) :
    Ensures (change <$> action) state post :=
  holds

theorem get_bind {next : State → StateM State Other} {state : State}
    {post : Other → State → Prop} (rest : Ensures (next state) state post) :
    Ensures (get >>= next) state post :=
  rest

theorem modify_bind {change : State → State} {next : PUnit → StateM State Other} {state : State}
    {post : Other → State → Prop} (rest : Ensures (next ⟨⟩) (change state) post) :
    Ensures (modify change >>= next) state post :=
  rest

theorem mono {action : StateM State Result} {state : State} {post post' : Result → State → Prop}
    (holds : Ensures action state post)
    (weaken : ∀ value state, post value state → post' value state) :
    Ensures action state post' :=
  weaken _ _ holds

theorem and {action : StateM State Result} {state : State} {post post' : Result → State → Prop}
    (first : Ensures action state post) (second : Ensures action state post') :
    Ensures action state fun value after => post value after ∧ post' value after :=
  ⟨first, second⟩

theorem run (action : StateM State Result) (state : State) :
    Ensures action state fun value after => action state = (value, after) :=
  rfl

end Ensures

/-- A computation goes on to a later state, and what it gives holds in every state later still. -/
def Lasting (Later : State → State → Prop) (action : StateM State Result) (state : State)
    (holds : Result → State → Prop) : Prop :=
  Ensures action state fun value after =>
    Later state after ∧ ∀ last, Later after last → holds value last

namespace Lasting

variable {Later : State → State → Prop} {state : State}

theorem pure {value : Result} {holds : Result → State → Prop} (refl : Later state state)
    (lasts : ∀ last, Later state last → holds value last) :
    Lasting Later (Pure.pure value) state holds :=
  ⟨refl, lasts⟩

theorem mono {action : StateM State Result} {holds holds' : Result → State → Prop}
    (lasting : Lasting Later action state holds)
    (weaken : ∀ value last, holds value last → holds' value last) :
    Lasting Later action state holds' :=
  ⟨lasting.1, fun last later => weaken _ last (lasting.2 last later)⟩

theorem bind {action : StateM State Result} {next : Result → StateM State Other}
    {first : Result → State → Prop} {holds : Other → State → Prop}
    (trans : ∀ {before middle after}, Later before middle → Later middle after → Later before after)
    (lasting : Lasting Later action state first)
    (rest : ∀ value middle, Later state middle →
      Lasting Later (next value) middle fun result last => first value last → holds result last) :
    Lasting Later (action >>= next) state holds := by
  refine Ensures.bind lasting fun value middle ⟨step, lasts⟩ => ?_
  refine Ensures.mono (rest value middle step) fun result after ⟨step', lasts'⟩ => ?_
  exact ⟨trans step step', fun last later => lasts' last later (lasts last (trans step' later))⟩

end Lasting

/-- A computation on the arena of a session changes nothing else. -/
theorem Session.onArena_ensures {action : ArenaM Result} {session : Session}
    {post : Result → Arena → Prop} (holds : Ensures action session.arena post) :
    Ensures (onArena action) session fun value after =>
      ∃ arena, post value arena ∧ after = { session with arena := arena } :=
  ⟨_, holds, rfl⟩

end ArrowCheck
