import Brewery.Session.Reaction
import Brewery.Tree.Listing

/-!
The first pass over a tree: every file that is there counts as added, and then the session
is ready. Without watching this is all a session does.
-/

namespace Brewery.Brewer

def pass (brewer : Brewer) (root : Path) (progress : Progress) :
    Progress × Except TreeError Unit :=
  let progress := progress.tell [.info "watch" "scanning" root.text]
  match Tree.files progress.disk root with
  | .error error => (progress, .error error)
  | .ok files =>
      let events := files.map Event.added ++ [.ready]
      ((brewer.handleAll events (progress.tell (Tree.foundLog root files))).1, .ok ())

end Brewery.Brewer
