import Jaws.Utf8
import Jaws.Strconv
import Jaws.WsMsg
import Jaws.Request
import Jaws.Process
import Jaws.Session
import Jaws.Ui
import Jaws.Tags
import Jaws.ToHtml
import Jaws.UiHtml
import Jaws.Ws
