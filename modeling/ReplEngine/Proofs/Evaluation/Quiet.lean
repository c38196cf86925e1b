import ReplEngine.Proofs.ClassSpace.History
import ReplEngine.Proofs.Evaluation.Motion
set_option autoImplicit false

/-!
# Evaluation declares nothing

Whatever code is evaluated, accepted or not, and however evaluation ends: variables and methods of
the session are what they were, and so are the bytes that are installed.  The count of objects,
what is printed and which classes have been made out of their bytes may change.
-/

namespace ReplEngine.Language

variable {α : Type}

/-- What two worlds have in common when nothing was declared between them. -/
structure World.Retains (w w' : World) : Prop where
  vars : w'.globals.vars = w.globals.vars
  methods : w'.globals.methods = w.globals.methods
  loading : Relation.ReflTransGen Loader.Loading w.loader w'.loader

theorem World.Retains.stamps {w w' : World} (h : w.Retains w') (name : String) :
    (w'.loader.versions name).map Version.stamp = (w.loader.versions name).map Version.stamp :=
  Loader.stamps_of_loading h.loading name

theorem World.Retains.refl (w : World) : w.Retains w := ⟨rfl, rfl, .refl⟩

theorem World.Retains.trans {w w' w'' : World} (h : w.Retains w') (h' : w'.Retains w'') :
    w.Retains w'' :=
  ⟨h'.vars.trans h.vars, h'.methods.trans h.methods, h.loading.trans h'.loading⟩

/-- Evaluation declares nothing, however it ends. -/
def Quiet (act : Eval α) : Prop := ∀ w : World, w.Retains (act.run w).2

theorem motion_retains : Motion World.Retains where
  refl := .refl
  trans := .trans
  find files name w := ⟨rfl, rfl, Loader.find_loading files name w.loader⟩
  count _ := ⟨rfl, rfl, .refl⟩
  println _ _ := ⟨rfl, rfl, .refl⟩

/-! ## The top level -/

theorem quiet_evalTop (files : FileTree) (snippet line : UInt32) (e : Expr) :
    Quiet (evalTop files snippet line e) :=
  moves_evalTop motion_retains files snippet line e

theorem quiet_throwTop (files : FileTree) (snippet line : UInt32) (e : Expr) :
    Quiet (throwTop files snippet line e) :=
  moves_throwTop motion_retains files snippet line e

end ReplEngine.Language
