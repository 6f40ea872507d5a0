import Pgstream.Go.Bytes
import Pgstream.Go.Utf8
import Pgstream.Go.Utf8RoundTrip
import Pgstream.Postgres.Identifier
import Pgstream.Postgres.ConnURL
import Pgstream.Postgres.Discovery
import Pgstream.Snapshot.TableFinder
import Pgstream.Es.Bulk
import Pgstream.Es.Client
import Pgstream.Webhook.Subscription
import Pgstream.Stream.Config
import Pgstream.Transformers.Scramble
import Pgstream.Transformers.Email
import Pgstream.Transformers.AtEmail
